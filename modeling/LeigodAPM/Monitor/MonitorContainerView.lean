import LeigodAPM.Foundation.Loops
import LeigodAPM.Foundation.MainQueue
import LeigodAPM.Monitor.Storage
import LeigodAPM.Monitor.Store
import LeigodAPM.SystemEye.CPU
import LeigodAPM.SystemEye.FrameWindows
import LeigodAPM.SystemEye.NetworkFlow

/-!
# The monitor pages of a process

Every page has a `MonitorContainerView` with seven tiles. The tiles are filled from different
sides: the display link and the timer of the container run on the main queue, the worker of its
`NetworkFlow` puts a block there, and `Store` calls the one container that has subscribed last.
No container is ever freed, so an old page goes on working when a new one is opened.

* `reports_of_step`, `shows_step`: what one event does to a page.
* `tiles_show`: in every run each tile of each page shows the last value of its own source,
  the traffic of the network only when the main queue has got there.
-/

namespace LeigodAPM

open Foundation Machine

/-! ## Tiles -/

inductive MonitorSystemType
  | appCPU
  | appRAM
  | appFPS
  | appNET
  | sysCPU
  | sysRAM
  | sysNET
  deriving DecidableEq

namespace MonitorSystemType

def info : MonitorSystemType → String
  | .appCPU => "APP CPU:"
  | .appRAM => "APP RAM:"
  | .appFPS => "APP FPS:"
  | .appNET => "APP NET FLOW:"
  | .sysCPU => "SYS CPU:"
  | .sysRAM => "SYS RAM:"
  | .sysNET => "SYS NET FLOW:"

def initialValue : MonitorSystemType → String
  | .appCPU => "0%"
  | .appRAM => "0B"
  | .appFPS => "0FPS"
  | .appNET => "0B"
  | .sysCPU => "0%"
  | .sysRAM => "0B"
  | .sysNET => "Undefine"

end MonitorSystemType

/-- `"%.1f"` of a `Double`. -/
def formatDouble : Double → String
  | .nan => "nan"
  | .inf negative => if negative = true then "-inf" else "inf"
  | .fin x => String.ofList (oneDecimal x)

/-- A tile, with the texts of its labels. -/
structure MonitorBaseView where
  type : MonitorSystemType
  infoLabel : String
  contentLabel : String
  deriving DecidableEq

namespace MonitorBaseView

def new (type : MonitorSystemType) : MonitorBaseView := ⟨type, type.info, type.initialValue⟩

/-- `configure(byte:)`, whose size is computed exactly here. -/
def configureByte (view : MonitorBaseView) (byte : ℚ) : MonitorBaseView :=
  { view with contentLabel := configure byte }

/-- `configure(percent:)` -/
def configurePercent (view : MonitorBaseView) (percent : Double) : MonitorBaseView :=
  { view with contentLabel := contentString (formatDouble percent) "%" }

/-- What `configure(fps:)` does to the tile. -/
def configureFPS (view : MonitorBaseView) (fps : Double) : MonitorBaseView :=
  { view with contentLabel := contentString (formatDouble fps) "FPS" }

end MonitorBaseView

/-- The tile of the network flow. Its labels have no text at first. -/
structure MonitorSysNetFlowView where
  type : MonitorSystemType
  infoLabel : String
  wifiSendLabel : Option String
  wifiReceivedLabel : Option String
  wwanSendLabel : Option String
  wwanReceivedLabel : Option String
  deriving DecidableEq

namespace MonitorSysNetFlowView

def new (type : MonitorSystemType) : MonitorSysNetFlowView :=
  ⟨type, type.info, none, none, none, none⟩

def configure (view : MonitorSysNetFlowView) (flow : NetModel) : MonitorSysNetFlowView :=
  { view with
    wifiSendLabel := some (attributedString "wifi send:" flow.wifiSend)
    wifiReceivedLabel := some (attributedString "wifi received:" flow.wifiReceived)
    wwanSendLabel := some (attributedString "wwan send:" flow.wwanSend)
    wwanReceivedLabel := some (attributedString "wwan received:" flow.wwanReceived) }

end MonitorSysNetFlowView

/-! ## The container -/

/-- What `timerHandler` reads from `System`. -/
structure Readings where
  applicationUsage : Double
  systemUsage : CpuUsage
  used : ℚ
  active : Double
  inactive : Double
  wired : Double
  total : Double

namespace Readings

def cpuPercent (F : FloatFormat) (r : Readings) : Double :=
  F.add (F.add r.systemUsage.system r.systemUsage.user) r.systemUsage.nice

def ramPercent (F : FloatFormat) (r : Readings) : Double :=
  F.mul (F.div (F.add (F.add r.active r.inactive) r.wired) r.total) (.fin 100)

end Readings

structure MonitorContainerView where
  fps : FPS
  networkFlow : NetworkFlow
  appCPUView : MonitorBaseView
  appRAMView : MonitorBaseView
  appFPSView : MonitorBaseView
  appNetView : MonitorBaseView
  sysCPUView : MonitorBaseView
  sysRAMView : MonitorBaseView
  sysNetView : MonitorSysNetFlowView

namespace MonitorContainerView

/-- The container in `init`, before it subscribes to `Store`. -/
def new : MonitorContainerView where
  fps := (FPS.new true).open
  networkFlow := (NetworkFlow.new true).open 1
  appCPUView := .new .appCPU
  appRAMView := .new .appRAM
  appFPSView := .new .appFPS
  appNetView := .new .appNET
  sysCPUView := .new .sysCPU
  sysRAMView := .new .sysRAM
  sysNetView := .new .sysNET

def timerHandler (F : FloatFormat) (c : MonitorContainerView) (r : Readings) :
    MonitorContainerView :=
  { c with
    appCPUView := c.appCPUView.configurePercent r.applicationUsage
    sysCPUView := c.sysCPUView.configurePercent (r.cpuPercent F)
    appRAMView := c.appRAMView.configureByte r.used
    sysRAMView := c.sysRAMView.configurePercent (r.ramPercent F) }

end MonitorContainerView

/-! ## The process -/

/-- The floating view of `EyesManager`, and whether it is in a window. -/
structure SettingView where
  title : String
  superview : Bool
  deriving DecidableEq

/-- The part of `EyesManager` for the frame rate. -/
structure EyesPanel where
  isShowFPS : Bool
  fps : String
  settingView : SettingView
  deriving DecidableEq

namespace EyesPanel

def new : EyesPanel := ⟨false, "", ⟨"", false⟩⟩

/-- Without a key window `addSubview` is not called. -/
def setIsShowFPS (s : EyesPanel) (isShowFPS keyWindow : Bool) : EyesPanel :=
  { s with
    isShowFPS := isShowFPS
    settingView.superview := isShowFPS && (keyWindow || s.settingView.superview) }

def setFps (s : EyesPanel) (fps : String) : EyesPanel :=
  { s with
    fps := fps
    settingView.title := if s.isShowFPS = true then fps else s.settingView.title }

/-- What `configure(fps:)` does to `EyesManager`. -/
def configure (s : EyesPanel) (fps : Double) : EyesPanel :=
  s.setFps ("FPS\n " ++ formatDouble fps)

end EyesPanel

/-- What the main queue works on. Containers are named by their position. -/
structure Screen where
  containers : List MonitorContainerView
  store : Store ℕ
  eyes : EyesPanel

namespace Screen

def start : Screen := ⟨[], .new, .new⟩

/-- A container; one that is not there yet is as it will be. -/
def container (s : Screen) (i : ℕ) : MonitorContainerView := s.containers[i]?.getD .new

def onContainer (s : Screen) (i : ℕ) (f : MonitorContainerView → MonitorContainerView) : Screen :=
  { s with containers := s.containers.modify i f }

/-- The closure that a container gives to `Store`. -/
def networkByte (s : Screen) (call : ℕ × ℚ) : Screen :=
  s.onContainer call.1 fun c => { c with appNetView := c.appNetView.configureByte call.2 }

/-- A call of `Store`, with the closures that it calls. -/
def onStore (s : Screen) (f : Store ℕ → Store ℕ) : Screen :=
  ((f s.store).given.drop s.store.given.length).foldl networkByte { s with store := f s.store }

/-- `fps(fps:currentFPS:)` -/
def fps (i : ℕ) (s : Screen) (currentFPS : Double) : Screen :=
  let s := { s with eyes := s.eyes.configure currentFPS }
  s.onContainer i fun c => { c with appFPSView := c.appFPSView.configureFPS currentFPS }

/-- A call of the `FPS` of a container, with the calls of its delegate. -/
def onFPS (s : Screen) (i : ℕ) (c : MonitorContainerView) (fps : FPS) : Screen :=
  (fps.reports.drop c.fps.reports.length).foldl (Screen.fps i)
    (s.onContainer i fun c => { c with fps := fps })

/-- The block that `networkFlow(...)` puts on the main queue. -/
def networkFlow (s : Screen) (block : ℕ × NetModel) : Screen :=
  s.onContainer block.1 fun c => { c with sysNetView := c.sysNetView.configure block.2 }

end Screen

/-- Blocks are sent by the worker of a container, with its report. -/
abbrev Monitor := MainQueue Screen (ℕ × NetModel)

namespace Monitor

/-- Everything but `execute` happens on the main queue. Notifications reach all objects. -/
inductive Event
  | newContainer
  | post (n : Notification)
  | refresh (i : ℕ) (timestamp : Double) (frameInterval : ℤ)
  | timer (i : ℕ) (readings : Readings)
  | execute (i : ℕ) (sample : NetModel)
  | runNext
  | addNetworkByte (byte : Int64)
  | setIsShowFPS (isShowFPS keyWindow : Bool)

def onScreen (q : Monitor) (f : Screen → Screen) : Monitor := ⟨f q.state, q.blocks⟩

/-- The worker of a container calls `execute`, whose delegate call is a block. -/
def execute (q : Monitor) (i : ℕ) (c : MonitorContainerView) (flow : NetworkFlow) : Monitor :=
  ⟨q.state.onContainer i fun c => { c with networkFlow := flow },
    q.blocks ++ (flow.reports.drop c.networkFlow.reports.length).map fun report => (i, report)⟩

def step (F : FloatFormat) : Machine Monitor Event
  | q, .newContainer =>
    let i := q.state.containers.length
    some (q.onScreen fun s =>
      { s with containers := s.containers ++ [MonitorContainerView.new] }.onStore
        (·.networkByteDidChange i))
  | q, .post n => some (q.onScreen fun s =>
      { s with containers := s.containers.map fun c => { c with fps := c.fps.post n } })
  | q, .refresh i timestamp frameInterval => q.state.containers[i]?.map fun c =>
      q.onScreen fun s => s.onFPS i c (c.fps.refresh F timestamp frameInterval)
  | q, .timer i readings => q.state.containers[i]?.map fun _ =>
      q.onScreen fun s => s.onContainer i fun c => c.timerHandler F readings
  | q, .execute i sample => q.state.containers[i]?.bind fun c =>
      (c.networkFlow.execute sample).map (q.execute i c)
  | q, .runNext => MainQueue.step Screen.networkFlow q .runNext
  | q, .addNetworkByte byte => some (q.onScreen fun s => s.onStore (·.addNetworkByte byte))
  | q, .setIsShowFPS isShowFPS keyWindow => some (q.onScreen fun s =>
      { s with eyes := s.eyes.setIsShowFPS isShowFPS keyWindow })

def start : Monitor := ⟨.start, []⟩

/-! ## What the tiles should show -/

/-- What the closure of a container has been told. -/
def told (store : Store ℕ) (i : ℕ) : List ℚ :=
  store.given.filterMap fun call => if call.1 = i then some call.2 else none

/-- The reports of a container that wait on the main queue. -/
def waiting (blocks : List (ℕ × NetModel)) (i : ℕ) : List NetModel :=
  blocks.filterMap fun block => if block.1 = i then some block.2 else none

/-- What the timer of a container has read. -/
def readings (h : List Event) (i : ℕ) : List Readings :=
  h.filterMap fun
    | .timer j r => if j = i then some r else none
    | _ => none

/-- The tiles of a container show the last values of their sources. -/
structure Tiles (F : FloatFormat) (c : MonitorContainerView) (told : List ℚ)
    (waiting : List NetModel) (readings : List Readings) : Prop where
  appFPS : c.appFPSView = showing .configureFPS (.new .appFPS) c.fps.reports
  appNet : c.appNetView = showing .configureByte (.new .appNET) told
  sysNet : ∃ done, c.networkFlow.reports = done ++ waiting ∧
    c.sysNetView = showing .configure (.new .sysNET) done
  appCPU : c.appCPUView =
    showing (fun v r => v.configurePercent r.applicationUsage) (.new .appCPU) readings
  sysCPU : c.sysCPUView =
    showing (fun v r => v.configurePercent (r.cpuPercent F)) (.new .sysCPU) readings
  appRAM : c.appRAMView = showing (fun v r => v.configureByte r.used) (.new .appRAM) readings
  sysRAM : c.sysRAMView =
    showing (fun v r => v.configurePercent (r.ramPercent F)) (.new .sysRAM) readings

end Monitor

/-! ## Calls of a container -/

namespace Monitor

theorem overwrites_byte : Overwrites MonitorBaseView.configureByte := fun _ _ _ => rfl

theorem overwrites_used :
    Overwrites fun (v : MonitorBaseView) (r : Readings) => v.configureByte r.used :=
  fun _ _ _ => rfl

theorem overwrites_fps : Overwrites MonitorBaseView.configureFPS := fun _ _ _ => rfl

theorem overwrites_flow : Overwrites MonitorSysNetFlowView.configure := fun _ _ _ => rfl

theorem overwrites_percent {A : Type} (percent : A → Double) :
    Overwrites fun (v : MonitorBaseView) a => v.configurePercent (percent a) := fun _ _ _ => rfl

section Tiles

variable {F : FloatFormat} {c : MonitorContainerView} {told : List ℚ} {waiting : List NetModel}
  {readings : List Readings}

theorem Tiles.reports (hTiles : Tiles F c told waiting readings) {fps : FPS} {more : List Double}
    (hReports : fps.reports = c.fps.reports ++ more) :
    Tiles F { c with
      fps := fps
      appFPSView := more.foldl .configureFPS c.appFPSView } told waiting readings :=
  { hTiles with
    appFPS := by
      change more.foldl _ _ = showing _ _ fps.reports
      rw [hTiles.appFPS, foldl_showing overwrites_fps, hReports] }

theorem Tiles.networkByte (hTiles : Tiles F c told waiting readings) (more : List ℚ) :
    Tiles F { c with appNetView := more.foldl .configureByte c.appNetView }
      (told ++ more) waiting readings :=
  { hTiles with
    appNet := by
      change more.foldl _ _ = _
      rw [hTiles.appNet, foldl_showing overwrites_byte] }

theorem Tiles.execute (hTiles : Tiles F c told waiting readings) {flow : NetworkFlow}
    {more : List NetModel} (hReports : flow.reports = c.networkFlow.reports ++ more) :
    Tiles F { c with networkFlow := flow } told (waiting ++ more) readings :=
  { hTiles with
    sysNet := by
      obtain ⟨done, hDone, hView⟩ := hTiles.sysNet
      refine ⟨done, ?_, hView⟩
      change flow.reports = _
      rw [hReports, hDone, List.append_assoc] }

theorem Tiles.runNext {m : NetModel} (hTiles : Tiles F c told (m :: waiting) readings) :
    Tiles F { c with sysNetView := c.sysNetView.configure m } told waiting readings :=
  { hTiles with
    sysNet := by
      obtain ⟨done, hDone, hView⟩ := hTiles.sysNet
      refine ⟨done ++ [m], ?_, ?_⟩
      · rw [List.append_assoc]
        exact hDone
      · rw [showing_concat overwrites_flow, ← hView] }

theorem Tiles.timer (hTiles : Tiles F c told waiting readings) (r : Readings) :
    Tiles F (c.timerHandler F r) told waiting (readings ++ [r]) :=
  { hTiles with
    appCPU := by
      rw [showing_concat (overwrites_percent Readings.applicationUsage), ← hTiles.appCPU]
      rfl
    sysCPU := by
      rw [showing_concat (overwrites_percent (Readings.cpuPercent F)), ← hTiles.sysCPU]
      rfl
    appRAM := by
      rw [showing_concat overwrites_used, ← hTiles.appRAM]
      rfl
    sysRAM := by
      rw [showing_concat (overwrites_percent (Readings.ramPercent F)), ← hTiles.sysRAM]
      rfl }

end Tiles

end Monitor

/-! ## Calls on the screen -/

namespace Screen

variable {s : Screen} {i j : ℕ}

@[simp] theorem onContainer_store (s : Screen) (i : ℕ) (f) :
    (s.onContainer i f).store = s.store := rfl

@[simp] theorem onContainer_eyes (s : Screen) (i : ℕ) (f) :
    (s.onContainer i f).eyes = s.eyes := rfl

@[simp] theorem onContainer_length (s : Screen) (i : ℕ) (f) :
    (s.onContainer i f).containers.length = s.containers.length := List.length_modify ..

theorem container_onContainer (f : MonitorContainerView → MonitorContainerView)
    (hi : i < s.containers.length) (j : ℕ) :
    (s.onContainer i f).container j = if i = j then f (s.container j) else s.container j := by
  rw [container, onContainer, List.getElem?_modify, container]
  by_cases hEq : i = j
  · subst hEq
    simp [hi]
  · simp [hEq]

/-- The calls of closures that are there. -/
theorem container_networkBytes {calls : List (ℕ × ℚ)}
    (hCalls : ∀ call ∈ calls, call.1 < s.containers.length) (j : ℕ) :
    (calls.foldl networkByte s).container j =
      { s.container j with
        appNetView := (calls.filterMap fun call => if call.1 = j then some call.2 else none).foldl
          .configureByte (s.container j).appNetView } := by
  induction calls generalizing s with
  | nil => rfl
  | cons call calls ih =>
    have hFirst := hCalls call List.mem_cons_self
    have hRest : ∀ c ∈ calls, c.1 < (s.networkByte call).containers.length := fun c hc =>
      (hCalls c (List.mem_cons_of_mem call hc)).trans_eq (onContainer_length s _ _).symm
    rw [List.foldl_cons, ih hRest, networkByte, container_onContainer _ hFirst]
    by_cases hEq : call.1 = j
    · simp [hEq]
    · simp [hEq]

theorem networkBytes_frame (calls : List (ℕ × ℚ)) (s : Screen) :
    (calls.foldl networkByte s).store = s.store ∧
      (calls.foldl networkByte s).containers.length = s.containers.length := by
  induction calls generalizing s with
  | nil => exact ⟨rfl, rfl⟩
  | cons call calls ih =>
    obtain ⟨hStore, hLength⟩ := ih (s.networkByte call)
    exact ⟨hStore, hLength.trans (onContainer_length s _ _)⟩

theorem container_fps (hi : i < s.containers.length) (report : Double) (j : ℕ) :
    (s.fps i report).container j =
      if i = j then
        { s.container j with appFPSView := (s.container j).appFPSView.configureFPS report }
      else s.container j :=
  container_onContainer (s := { s with eyes := _ }) _ hi j

/-- The reports of a container go to its own tile. -/
theorem container_reports (hi : i < s.containers.length) (reports : List Double) (j : ℕ) :
    (reports.foldl (fps i) s).container j =
      if i = j then
        { s.container j with
          appFPSView := reports.foldl .configureFPS (s.container j).appFPSView }
      else s.container j := by
  induction reports generalizing s with
  | nil => simp
  | cons report reports ih =>
    have hLength : i < (s.fps i report).containers.length :=
      hi.trans_eq (onContainer_length _ _ _).symm
    rw [List.foldl_cons, ih hLength, container_fps hi]
    by_cases hEq : i = j
    · simp [hEq]
    · simp [hEq]

theorem reports_frame (i : ℕ) (reports : List Double) (s : Screen) :
    (reports.foldl (fps i) s).store = s.store ∧
      (reports.foldl (fps i) s).containers.length = s.containers.length := by
  induction reports generalizing s with
  | nil => exact ⟨rfl, rfl⟩
  | cons report reports ih =>
    obtain ⟨hStore, hLength⟩ := ih (s.fps i report)
    exact ⟨hStore, hLength.trans (onContainer_length _ _ _)⟩

/-- A call of `Store` reaches the containers that it tells about bytes. -/
theorem onStore_spec {f : Store ℕ → Store ℕ} {calls : List (ℕ × ℚ)}
    (hGiven : (f s.store).given = s.store.given ++ calls)
    (hCalls : ∀ call ∈ calls, call.1 < s.containers.length) :
    (s.onStore f).store = f s.store ∧ (s.onStore f).containers.length = s.containers.length ∧
      ∀ j, (s.onStore f).container j = { s.container j with
        appNetView := (calls.filterMap fun call => if call.1 = j then some call.2 else none).foldl
          .configureByte (s.container j).appNetView } := by
  let stored : Screen := { s with store := f s.store }
  have hScreen : s.onStore f = calls.foldl networkByte stored := by
    rw [onStore, hGiven, List.drop_left]
  obtain ⟨hStore, hLength⟩ := networkBytes_frame calls stored
  rw [hScreen]
  exact ⟨hStore, hLength, container_networkBytes (s := stored) hCalls⟩

/-- A call of an `FPS` changes it and the tile of its container. -/
theorem onFPS_spec (hi : i < s.containers.length) {fps : FPS} {more : List Double}
    (hReports : fps.reports = (s.container i).fps.reports ++ more) :
    (s.onFPS i (s.container i) fps).store = s.store ∧
      (s.onFPS i (s.container i) fps).containers.length = s.containers.length ∧
      ∀ j, (s.onFPS i (s.container i) fps).container j =
        if i = j then
          { s.container j with
            fps := fps
            appFPSView := more.foldl .configureFPS (s.container j).appFPSView }
        else s.container j := by
  let called := s.onContainer i fun c => { c with fps := fps }
  have hScreen : s.onFPS i (s.container i) fps = more.foldl (Screen.fps i) called := by
    rw [onFPS, hReports, List.drop_left]
  have hCalled : called.containers.length = s.containers.length := onContainer_length s i _
  obtain ⟨hStore, hLength⟩ := reports_frame i more called
  refine ⟨by rw [hScreen, hStore]; rfl, by rw [hScreen, hLength, hCalled], fun j => ?_⟩
  rw [hScreen, container_reports (hi.trans_eq hCalled.symm), container_onContainer _ hi]
  by_cases hEq : i = j
  · simp [hEq]
  · simp [hEq]

end Screen

/-! ## One event -/

theorem Store.addNetworkByte_given (s : Store ℕ) (byte : Int64) :
    ∃ calls, (s.addNetworkByte byte).given = s.given ++ calls ∧
      ∀ call ∈ calls, s.change = some call.1 := by
  refine ⟨_, rfl, fun call hCall => ?_⟩
  obtain ⟨i, hi, rfl⟩ := List.mem_map.mp hCall
  exact Option.mem_toList.mp hi

theorem Store.networkByteDidChange_given (s : Store ℕ) (i : ℕ) :
    ∃ calls, (s.networkByteDidChange i).given = s.given ++ calls ∧ ∀ call ∈ calls, call.1 = i := by
  rw [Store.networkByteDidChange]
  split
  · exact ⟨[(i, s.networkMB)], rfl, by simp⟩
  · exact ⟨[], by simp, by simp⟩

theorem Store.networkByteDidChange_change (s : Store ℕ) (i : ℕ) :
    (s.networkByteDidChange i).change = some i := by
  rw [Store.networkByteDidChange]
  split <;> rfl

theorem FPS.post_reports (s : FPS) (n : Notification) : (s.post n).reports = s.reports := by
  have hPerform (s : FPS) (selector : FPSSelector) : (s.perform selector).reports = s.reports := by
    cases selector with
    | _ =>
      simp only [FPS.perform, FPS.applicationWillResignActiveNotification,
        FPS.applicationDidBecomeActiveNotification]
      split <;> rfl
  rw [FPS.post]
  generalize s.observers.filter _ = observers
  induction observers generalizing s with
  | nil => rfl
  | cons o observers ih => rw [List.foldl_cons, ih, hPerform]

theorem FPS.refresh_reports (F : FloatFormat) (s : FPS) (timestamp : Double) (frameInterval : ℤ) :
    ∃ more, (s.refresh F timestamp frameInterval).reports = s.reports ++ more := by
  rw [FPS.refresh]
  split
  · exact ⟨[], (List.append_nil _).symm⟩
  · exact ⟨_, (FPS.displayLinkHandler_reports _).2⟩

theorem NetworkFlow.execute_reports {s s' : NetworkFlow} {sample : NetModel}
    (hExecute : s.execute sample = some s') : ∃ more, s'.reports = s.reports ++ more := by
  have hReport (s : NetworkFlow) (m : NetModel) :
      ∃ more, (s.report m).reports = s.reports ++ more := by
    rw [NetworkFlow.report]
    split
    · exact ⟨[m], rfl⟩
    · exact ⟨[], (List.append_nil _).symm⟩
  rw [NetworkFlow.execute] at hExecute
  split at hExecute
  · obtain rfl := Option.some.inj hExecute
    exact hReport _ sample
  · obtain ⟨d, -, rfl⟩ := Option.map_eq_some_iff.mp hExecute
    exact hReport s d

namespace Monitor

section Step

variable {F : FloatFormat} {h : List Event} {q q' : Monitor} {e : Event}

theorem told_append {store store' : Store ℕ} {calls : List (ℕ × ℚ)}
    (hGiven : store'.given = store.given ++ calls) (i : ℕ) :
    told store' i = told store i ++
      calls.filterMap fun call => if call.1 = i then some call.2 else none := by
  rw [told, hGiven, List.filterMap_append, told]

theorem waiting_append (blocks blocks' : List (ℕ × NetModel)) (i : ℕ) :
    waiting (blocks ++ blocks') i = waiting blocks i ++ waiting blocks' i :=
  List.filterMap_append ..

theorem waiting_cons (i : ℕ) (report : NetModel) (blocks : List (ℕ × NetModel)) (j : ℕ) :
    waiting ((i, report) :: blocks) j =
      if i = j then report :: waiting blocks j else waiting blocks j := by
  rw [waiting, List.filterMap_cons]
  by_cases hEq : i = j
  · simp [hEq, waiting]
  · simp [hEq, waiting]

theorem waiting_map (reports : List NetModel) (i j : ℕ) :
    waiting (reports.map fun report => (i, report)) j = if i = j then reports else [] := by
  rw [waiting, List.filterMap_map]
  by_cases hEq : i = j
  · simp [hEq]
  · simp [hEq]

theorem readings_concat (h : List Event) (e : Event) (i : ℕ) :
    readings (h ++ [e]) i = readings h i ++ readings [e] i := List.filterMap_append ..

/-- The tiles of all containers, those to come included. -/
structure Shows (F : FloatFormat) (h : List Event) (q : Monitor) : Prop where
  tiles : ∀ i, Tiles F (q.state.container i) (told q.state.store i) (waiting q.blocks i)
    (readings h i)
  change_lt : ∀ i, q.state.store.change = some i → i < q.state.containers.length
  blocks_lt : ∀ block ∈ q.blocks, block.1 < q.state.containers.length

theorem shows_start : Shows F [] start where
  tiles _ := ⟨rfl, rfl, ⟨[], rfl, rfl⟩, rfl, rfl, rfl, rfl⟩
  change_lt _ hChange := by cases hChange
  blocks_lt _ hBlock := by cases hBlock

/-- An event without a timer reads nothing. -/
theorem Shows.next (hShows : Shows F h q) (hRead : ∀ i, readings [e] i = []) :
    Shows F (h ++ [e]) q where
  tiles i := by
    rw [readings_concat, hRead i, List.append_nil]
    exact hShows.tiles i
  change_lt := hShows.change_lt
  blocks_lt := hShows.blocks_lt

theorem Shows.onStore (hShows : Shows F h q) {f : Store ℕ → Store ℕ} {calls : List (ℕ × ℚ)}
    (hGiven : (f q.state.store).given = q.state.store.given ++ calls)
    (hCalls : ∀ call ∈ calls, call.1 < q.state.containers.length)
    (hChange : ∀ i, (f q.state.store).change = some i → i < q.state.containers.length) :
    Shows F h (q.onScreen fun s => s.onStore f) := by
  obtain ⟨hStore, hLength, hContainer⟩ := Screen.onStore_spec hGiven hCalls
  refine ⟨fun i => ?_, fun i hi => ?_, fun block hBlock => ?_⟩
  · rw [onScreen, hContainer, hStore, told_append hGiven]
    exact (hShows.tiles i).networkByte _
  · rw [onScreen, hStore] at hi
    exact (hChange i hi).trans_eq hLength.symm
  · exact (hShows.blocks_lt block hBlock).trans_eq hLength.symm

/-- A new container is as it was expected. -/
theorem container_append (s : Screen) (i : ℕ) :
    Screen.container { s with containers := s.containers ++ [.new] } i = s.container i := by
  rw [Screen.container, Screen.container]
  rcases lt_trichotomy i s.containers.length with hLt | hEq | hGt
  · rw [List.getElem?_append_left hLt]
  · subst hEq
    simp
  · have hLe : (s.containers ++ [MonitorContainerView.new]).length ≤ i := by
      simpa [Nat.succ_le_iff] using hGt
    rw [List.getElem?_eq_none hLe, List.getElem?_eq_none hGt.le]

theorem Shows.append (hShows : Shows F h q) :
    Shows F h (q.onScreen fun s => { s with containers := s.containers ++ [.new] }) := by
  have hLength : q.state.containers.length <
      (q.state.containers ++ [MonitorContainerView.new]).length := by simp
  refine ⟨fun i => ?_, fun i hi => ?_, fun block hBlock => ?_⟩
  · rw [onScreen, container_append]
    exact hShows.tiles i
  · exact (hShows.change_lt i hi).trans hLength
  · exact (hShows.blocks_lt block hBlock).trans hLength

/-- The event of a container that is there. -/
theorem Shows.onContainer (hShows : Shows F h q) {i : ℕ} (hi : i < q.state.containers.length)
    {screen : Screen} {blocks : List (ℕ × NetModel)}
    (g : MonitorContainerView → MonitorContainerView)
    (hStore : screen.store = q.state.store)
    (hLength : screen.containers.length = q.state.containers.length)
    (hContainer : ∀ j, screen.container j =
      if i = j then g (q.state.container j) else q.state.container j)
    (hOwn : Tiles F (g (q.state.container i)) (told q.state.store i) (waiting blocks i)
      (readings h i ++ readings [e] i))
    (hOthers : ∀ j, i ≠ j → waiting blocks j = waiting q.blocks j ∧ readings [e] j = [])
    (hBlocks : ∀ block ∈ blocks, block.1 = i ∨ block ∈ q.blocks) :
    Shows F (h ++ [e]) ⟨screen, blocks⟩ where
  tiles j := by
    rw [hContainer, hStore]
    by_cases hEq : i = j
    · subst hEq
      rw [if_pos rfl, readings_concat]
      exact hOwn
    · obtain ⟨hWaiting, hRead⟩ := hOthers j hEq
      rw [if_neg hEq, hWaiting, readings_concat, hRead, List.append_nil]
      exact hShows.tiles j
  change_lt j hj := by
    rw [hStore] at hj
    exact (hShows.change_lt j hj).trans_eq hLength.symm
  blocks_lt block hBlock := by
    rcases hBlocks block hBlock with hEq | hOld
    · rw [hEq]
      exact hi.trans_eq hLength.symm
    · exact (hShows.blocks_lt block hOld).trans_eq hLength.symm

/-- A notification reports nothing. -/
theorem tiles_post {screen : Screen} {i : ℕ} {told : List ℚ} {waiting : List NetModel}
    {readings : List Readings} (hTiles : Tiles F (screen.container i) told waiting readings)
    (n : Notification) : Tiles F (Screen.container { screen with
      containers := screen.containers.map fun c => { c with fps := c.fps.post n } } i)
      told waiting readings := by
  rw [Screen.container, List.getElem?_map]
  cases hc : screen.containers[i]? with
  | none =>
    rw [Screen.container, hc] at hTiles
    exact hTiles
  | some c =>
    rw [Screen.container, hc] at hTiles
    have hNone : (c.fps.post n).reports = c.fps.reports ++ [] := by
      rw [FPS.post_reports, List.append_nil]
    exact hTiles.reports hNone

theorem getElem?_container {s : Screen} {i : ℕ} {c : MonitorContainerView}
    (hc : s.containers[i]? = some c) : i < s.containers.length ∧ s.container i = c :=
  ⟨(List.getElem?_eq_some_iff.mp hc).1, by rw [Screen.container, hc, Option.getD_some]⟩

theorem shows_step (hShows : Shows F h q) (hStep : step F q e = some q') :
    Shows F (h ++ [e]) q' := by
  cases e with
  | newContainer =>
    obtain rfl := Option.some.inj hStep
    obtain ⟨calls, hGiven, hCalls⟩ :=
      Store.networkByteDidChange_given q.state.store q.state.containers.length
    refine (hShows.append.onStore hGiven ?_ ?_).next fun i => rfl
    · intro call hCall
      rw [hCalls call hCall]
      simp [onScreen]
    · intro i hi
      rw [Store.networkByteDidChange_change] at hi
      obtain rfl := Option.some.inj hi
      simp [onScreen]
  | post n =>
    obtain rfl := Option.some.inj hStep
    have hLength : (q.state.containers.map fun c => { c with fps := c.fps.post n }).length =
        q.state.containers.length := List.length_map ..
    refine Shows.next ⟨fun i => ?_, fun i hi => (hShows.change_lt i hi).trans_eq hLength.symm,
      fun block hBlock => (hShows.blocks_lt block hBlock).trans_eq hLength.symm⟩ fun i => rfl
    exact tiles_post (hShows.tiles i) n
  | refresh i timestamp frameInterval =>
    obtain ⟨c, hc, rfl⟩ := Option.map_eq_some_iff.mp hStep
    obtain ⟨hi, rfl⟩ := getElem?_container hc
    obtain ⟨more, hReports⟩ :=
      FPS.refresh_reports F (q.state.container i).fps timestamp frameInterval
    obtain ⟨hStore, hLength, hContainer⟩ := Screen.onFPS_spec hi hReports
    refine hShows.onContainer hi (fun c => { c with
      fps := (q.state.container i).fps.refresh F timestamp frameInterval
      appFPSView := more.foldl .configureFPS c.appFPSView }) hStore hLength hContainer ?_
      (fun j _ => ⟨rfl, rfl⟩) fun block hBlock => Or.inr hBlock
    exact (List.append_nil (readings h i)).symm ▸ (hShows.tiles i).reports hReports
  | timer i r =>
    obtain ⟨c, hc, rfl⟩ := Option.map_eq_some_iff.mp hStep
    obtain ⟨hi, rfl⟩ := getElem?_container hc
    refine hShows.onContainer hi (fun c => c.timerHandler F r) rfl (Screen.onContainer_length ..)
      (Screen.container_onContainer _ hi) ?_ (fun j hNe => ⟨rfl, ?_⟩)
      fun block hBlock => Or.inr hBlock
    · have hRead : readings [.timer i r] i = [r] := by simp [readings]
      rw [hRead]
      exact (hShows.tiles i).timer r
    · simp [readings, hNe]
  | execute i sample =>
    obtain ⟨c, hc, hExecute⟩ := Option.bind_eq_some_iff.mp hStep
    obtain ⟨flow, hFlow, rfl⟩ := Option.map_eq_some_iff.mp hExecute
    obtain ⟨hi, rfl⟩ := getElem?_container hc
    obtain ⟨more, hReports⟩ := NetworkFlow.execute_reports hFlow
    have hNew : flow.reports.drop (q.state.container i).networkFlow.reports.length = more := by
      rw [hReports, List.drop_left]
    rw [execute, hNew]
    refine hShows.onContainer hi (fun c => { c with networkFlow := flow }) rfl
      (Screen.onContainer_length ..) (Screen.container_onContainer _ hi) ?_
      (fun j hNe => ⟨?_, rfl⟩) fun block hBlock => ?_
    · have hOwn := (hShows.tiles i).execute hReports
      rw [waiting_append, waiting_map, if_pos rfl]
      exact (List.append_nil (readings h i)).symm ▸ hOwn
    · rw [waiting_append, waiting_map, if_neg hNe, List.append_nil]
    · rcases List.mem_append.mp hBlock with hOld | hNewBlock
      · exact Or.inr hOld
      · obtain ⟨report, -, rfl⟩ := List.mem_map.mp hNewBlock
        exact Or.inl rfl
  | runNext =>
    obtain ⟨screen, blocks⟩ := q
    cases blocks with
    | nil => cases hStep
    | cons block blocks =>
      obtain rfl := Option.some.inj hStep
      obtain ⟨i, report⟩ := block
      have hi : i < screen.containers.length := hShows.blocks_lt (i, report) List.mem_cons_self
      refine hShows.onContainer hi (fun c => { c with sysNetView := c.sysNetView.configure report })
        rfl (Screen.onContainer_length ..) (Screen.container_onContainer _ hi) ?_
        (fun j hNe => ⟨?_, rfl⟩) fun block hBlock => Or.inr (List.mem_cons_of_mem _ hBlock)
      · have hOwn := hShows.tiles i
        rw [waiting_cons, if_pos rfl] at hOwn
        exact (List.append_nil (readings h i)).symm ▸ hOwn.runNext
      · rw [waiting_cons, if_neg hNe]
  | addNetworkByte byte =>
    obtain rfl := Option.some.inj hStep
    obtain ⟨calls, hGiven, hCalls⟩ := Store.addNetworkByte_given q.state.store byte
    refine (hShows.onStore hGiven ?_ hShows.change_lt).next fun i => rfl
    intro call hCall
    exact hShows.change_lt call.1 (hCalls call hCall)
  | setIsShowFPS isShowFPS keyWindow =>
    obtain rfl := Option.some.inj hStep
    exact Shows.next ⟨hShows.tiles, hShows.change_lt, hShows.blocks_lt⟩ fun i => rfl

end Step

theorem always_shows (F : FloatFormat) (events : List Event) :
    (step F).Always (Shows F) start events :=
  always_of_step shows_start fun _ _ _ _ hShows hStep => shows_step hShows hStep

/-- **The tiles.** In every state of a run each tile of each container shows the last value of
its source, or its initial text: the last report of its `FPS`, what `Store` has told it last,
the last readings of its timer, and for the network flow the last report that the main queue
has executed, behind which the others wait in order. -/
theorem tiles_show (F : FloatFormat) (events : List Event) :
    (step F).Always (fun h q => ∀ i c, q.state.containers[i]? = some c →
      Tiles F c (told q.state.store i) (waiting q.blocks i) (readings h i)) start events := by
  refine (always_shows F events).mono fun h q hShows i c hc => ?_
  obtain ⟨-, rfl⟩ := getElem?_container hc
  exact hShows.tiles i

end Monitor

end LeigodAPM
