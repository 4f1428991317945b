import LeigodAPM.Monitor.MonitorContainerView

/-!
# The floating view of the frame rate

`EyesManager` shows a floating view with the frame rate. The switch on any page shows and hides
it, and the reports of all containers go to its title, but only while it is shown.

* `panel_title`: after any calls the title is the last report that was made while it was shown.
* `floating_view_of_run`: so it is in every state of a run, for the reports of all containers and
  the switches in the order in which the run makes them.
-/

namespace LeigodAPM

open Foundation Machine

/-- The calls of `EyesManager`; reports come with the container that made them. -/
inductive PanelCall
  | setIsShowFPS (isShowFPS keyWindow : Bool)
  | configure (i : ℕ) (fps : Double)

namespace PanelCall

def switch : PanelCall → Option (Bool × Bool)
  | .setIsShowFPS isShowFPS keyWindow => some (isShowFPS, keyWindow)
  | .configure _ _ => none

def report (i : ℕ) : PanelCall → Option Double
  | .setIsShowFPS _ _ => none
  | .configure j fps => if j = i then some fps else none

/-- All reports. -/
def reports (calls : List PanelCall) : List Double :=
  calls.filterMap fun
    | .setIsShowFPS _ _ => none
    | .configure _ fps => some fps

/-- The reports that are made while the view is shown. -/
def shown : Bool → List PanelCall → List Double
  | _, [] => []
  | _, .setIsShowFPS isShowFPS _ :: calls => shown isShowFPS calls
  | true, .configure _ fps :: calls => fps :: shown true calls
  | false, .configure _ _ :: calls => shown false calls

end PanelCall

namespace EyesPanel

def call (s : EyesPanel) : PanelCall → EyesPanel
  | .setIsShowFPS isShowFPS keyWindow => s.setIsShowFPS isShowFPS keyWindow
  | .configure _ fps => s.configure fps

/-- The text of the last report, or another text when there is none. -/
def lastText (text : String) (reports : List Double) : String :=
  showing (fun _ fps => "FPS\n " ++ formatDouble fps) text reports

theorem lastText_cons (text : String) (fps : Double) (reports : List Double) :
    lastText text (fps :: reports) = lastText ("FPS\n " ++ formatDouble fps) reports := by
  have hOver : Overwrites fun (_ : String) fps => "FPS\n " ++ formatDouble fps := fun _ _ _ => rfl
  have hFirst := foldl_showing hOver text [fps] reports
  have hNone := foldl_showing hOver ("FPS\n " ++ formatDouble fps) [] reports
  exact hFirst.symm.trans hNone

theorem panel_title (s : EyesPanel) (calls : List PanelCall) :
    (calls.foldl call s).settingView.title =
      lastText s.settingView.title (PanelCall.shown s.isShowFPS calls) := by
  induction calls generalizing s with
  | nil => rfl
  | cons c calls ih =>
    rw [List.foldl_cons, ih]
    cases c with
    | setIsShowFPS isShowFPS keyWindow => rfl
    | configure i fps =>
      cases hShow : s.isShowFPS with
      | true =>
        rw [PanelCall.shown, lastText_cons]
        simp [call, configure, setFps, hShow]
      | false =>
        rw [PanelCall.shown]
        simp [call, configure, setFps, hShow]

theorem panel_fps (s : EyesPanel) (calls : List PanelCall) :
    (calls.foldl call s).fps = lastText s.fps (PanelCall.reports calls) := by
  induction calls generalizing s with
  | nil => rfl
  | cons c calls ih =>
    rw [List.foldl_cons, ih]
    cases c with
    | setIsShowFPS isShowFPS keyWindow => rfl
    | configure i fps => exact (lastText_cons s.fps fps (PanelCall.reports calls)).symm

/-- The two flags of the panel under a switch. -/
def flag (flags switch : Bool × Bool) : Bool × Bool :=
  (switch.1, switch.1 && (switch.2 || flags.2))

theorem panel_flags (s : EyesPanel) (calls : List PanelCall) :
    ((calls.foldl call s).isShowFPS, (calls.foldl call s).settingView.superview) =
      (calls.filterMap PanelCall.switch).foldl flag (s.isShowFPS, s.settingView.superview) := by
  induction calls generalizing s with
  | nil => rfl
  | cons c calls ih =>
    rw [List.foldl_cons, ih]
    cases c with
    | setIsShowFPS isShowFPS keyWindow => rfl
    | configure i fps => rfl

end EyesPanel

namespace Monitor

variable {F : FloatFormat} {h : List Event} {q q' : Monitor} {e : Event} {calls : List PanelCall}

def Event.switch : Event → Option (Bool × Bool)
  | .setIsShowFPS isShowFPS keyWindow => some (isShowFPS, keyWindow)
  | _ => none

/-- The calls of `EyesManager` that an event makes: a switch, or what the `FPS` of a container
reports when the display link fires. -/
def Event.eyesCalls (F : FloatFormat) (q : Monitor) : Event → List PanelCall
  | .setIsShowFPS isShowFPS keyWindow => [.setIsShowFPS isShowFPS keyWindow]
  | .refresh i timestamp frameInterval =>
    let fps := (q.state.container i).fps
    ((fps.refresh F timestamp frameInterval).reports.drop fps.reports.length).map (.configure i)
  | _ => []

/-- The calls of `EyesManager` in the order of a run. -/
def callsOf (F : FloatFormat) (events : List Event) : List PanelCall :=
  (step F).outputs (Event.eyesCalls F) start events

/-- The switch was last set to shown. -/
def Switched (h : List Event) : Prop :=
  Since (fun e => ∃ k, e = .setIsShowFPS true k) (fun e => ∃ k, e = .setIsShowFPS false k) h

/-- Since the view was last hidden it was shown at a time when there was a key window. -/
def Placed (h : List Event) : Prop :=
  Since (· = .setIsShowFPS true true) (fun e => ∃ k, e = .setIsShowFPS false k) h

/-- The calls of `EyesManager` fit the events and the reports. -/
structure Traced (h : List Event) (q : Monitor) (calls : List PanelCall) : Prop where
  eyes : q.state.eyes = calls.foldl .call .new
  switches : calls.filterMap PanelCall.switch = h.filterMap Event.switch
  reports : ∀ i, calls.filterMap (PanelCall.report i) = (q.state.container i).fps.reports

/-! ## What the calls leave -/

/-- A call on a container that leaves its `FPS` alone. -/
theorem fps_onContainer (s : Screen) (i j : ℕ) {f : MonitorContainerView → MonitorContainerView}
    (hf : ∀ c, (f c).fps = c.fps) :
    ((s.onContainer i f).container j).fps = (s.container j).fps := by
  rw [Screen.container, Screen.onContainer, List.getElem?_modify, Screen.container]
  cases s.containers[j]? with
  | none => rfl
  | some c =>
    by_cases hEq : i = j
    · simp [hEq, hf]
    · simp [hEq]

theorem networkBytes_fps (told : List (ℕ × ℚ)) (s : Screen) :
    (told.foldl .networkByte s).eyes = s.eyes ∧
      ∀ j, ((told.foldl .networkByte s).container j).fps = (s.container j).fps := by
  induction told generalizing s with
  | nil => exact ⟨rfl, fun j => rfl⟩
  | cons call told ih =>
    obtain ⟨hEyes, hFps⟩ := ih (s.networkByte call)
    refine ⟨hEyes, fun j => (hFps j).trans (fps_onContainer s call.1 j ?_)⟩
    exact fun c => rfl

theorem reports_fps (i : ℕ) (reports : List Double) (s : Screen) :
    (reports.foldl (.fps i) s).eyes = reports.foldl .configure s.eyes ∧
      ∀ j, ((reports.foldl (.fps i) s).container j).fps = (s.container j).fps := by
  induction reports generalizing s with
  | nil => exact ⟨rfl, fun j => rfl⟩
  | cons report reports ih =>
    obtain ⟨hEyes, hFps⟩ := ih (s.fps i report)
    refine ⟨hEyes, fun j => (hFps j).trans (fps_onContainer { s with eyes := _ } i j ?_)⟩
    exact fun c => rfl

theorem configure_calls (i : ℕ) (more : List Double) (s : EyesPanel) :
    (more.map (PanelCall.configure i)).foldl .call s = more.foldl .configure s := by
  rw [List.foldl_map]
  rfl

/-- The step of a run adds its calls at the end. -/
theorem Traced.step (hTraced : Traced h q calls) (hStep : step F q e = some q') :
    Traced (h ++ [e]) q' (calls ++ e.eyesCalls F q) := by
  have hQuiet (hSwitch : e.switch = none) (hEyes : q'.state.eyes = q.state.eyes)
      (hReports : ∀ i, (q'.state.container i).fps.reports = (q.state.container i).fps.reports) :
      Traced (h ++ [e]) q' (calls ++ []) := by
    refine ⟨?_, ?_, fun i => ?_⟩
    · rw [hEyes, List.append_nil, hTraced.eyes]
    · rw [List.append_nil, hTraced.switches, List.filterMap_append]
      simp [hSwitch]
    · rw [List.append_nil, hTraced.reports, hReports]
  cases e with
  | newContainer =>
    obtain rfl := Option.some.inj hStep
    let i := q.state.containers.length
    obtain ⟨hEyes, hFps⟩ := networkBytes_fps
      ((q.state.store.networkByteDidChange i).given.drop q.state.store.given.length)
      ⟨q.state.containers ++ [.new], q.state.store.networkByteDidChange i, q.state.eyes⟩
    refine hQuiet rfl hEyes fun j => ?_
    rw [← container_append q.state j]
    exact congrArg _ (hFps j)
  | post n =>
    obtain rfl := Option.some.inj hStep
    refine hQuiet rfl rfl fun j => ?_
    rw [onScreen, Screen.container, List.getElem?_map, Screen.container]
    cases q.state.containers[j]? with
    | none => rfl
    | some c => exact FPS.post_reports c.fps n
  | refresh i timestamp frameInterval =>
    obtain ⟨c, hc, rfl⟩ := Option.map_eq_some_iff.mp hStep
    obtain ⟨hi, rfl⟩ := getElem?_container hc
    obtain ⟨more, hReports⟩ :=
      FPS.refresh_reports F (q.state.container i).fps timestamp frameInterval
    obtain ⟨-, -, hContainer⟩ := Screen.onFPS_spec hi hReports
    have hEyes := (reports_fps i more (q.state.onContainer i fun c =>
      { c with fps := (q.state.container i).fps.refresh F timestamp frameInterval })).1
    have hCalls : Event.eyesCalls F q (.refresh i timestamp frameInterval) =
        more.map (.configure i) := by
      simp only [Event.eyesCalls, hReports, List.drop_left]
    rw [hCalls]
    refine ⟨?_, ?_, fun j => ?_⟩
    · rw [List.foldl_append, ← hTraced.eyes, configure_calls, onScreen, Screen.onFPS, hReports,
        List.drop_left]
      exact hEyes
    · rw [List.filterMap_append, List.filterMap_append, hTraced.switches]
      simp [PanelCall.switch, Event.switch, List.filterMap_map, Function.comp_def]
    · rw [List.filterMap_append, hTraced.reports, onScreen, hContainer, List.filterMap_map]
      by_cases hEq : i = j
      · subst hEq
        simp [hReports, PanelCall.report, Function.comp_def]
      · simp [hEq, PanelCall.report, Function.comp_def]
  | timer i r =>
    obtain ⟨c, -, rfl⟩ := Option.map_eq_some_iff.mp hStep
    refine hQuiet rfl rfl fun j => congrArg _ (fps_onContainer q.state i j ?_)
    exact fun c => rfl
  | execute i sample =>
    obtain ⟨c, -, hExecute⟩ := Option.bind_eq_some_iff.mp hStep
    obtain ⟨flow, -, rfl⟩ := Option.map_eq_some_iff.mp hExecute
    refine hQuiet rfl rfl fun j => congrArg _ (fps_onContainer q.state i j ?_)
    exact fun c => rfl
  | runNext =>
    obtain ⟨screen, blocks⟩ := q
    cases blocks with
    | nil => cases hStep
    | cons block blocks =>
      obtain rfl := Option.some.inj hStep
      refine hQuiet rfl rfl fun j => congrArg _ (fps_onContainer screen block.1 j ?_)
      exact fun c => rfl
  | addNetworkByte byte =>
    obtain rfl := Option.some.inj hStep
    obtain ⟨hEyes, hFps⟩ := networkBytes_fps
      ((q.state.store.addNetworkByte byte).given.drop q.state.store.given.length)
      { q.state with store := q.state.store.addNetworkByte byte }
    exact hQuiet rfl hEyes fun j => congrArg _ (hFps j)
  | setIsShowFPS isShowFPS keyWindow =>
    obtain rfl := Option.some.inj hStep
    refine ⟨?_, ?_, fun i => ?_⟩
    · rw [List.foldl_append, ← hTraced.eyes]
      rfl
    · rw [List.filterMap_append, List.filterMap_append, hTraced.switches]
      rfl
    · rw [List.filterMap_append, hTraced.reports]
      exact List.append_nil _

/-- The flags that the switches of a history leave. -/
theorem flags_iff (h : List Event) :
    (((h.filterMap Event.switch).foldl EyesPanel.flag (false, false)).1 = true ↔ Switched h) ∧
      (((h.filterMap Event.switch).foldl EyesPanel.flag (false, false)).2 = true ↔ Placed h) := by
  induction h using List.reverseRecOn with
  | nil => simp [Switched, Placed]
  | append_singleton h e ih =>
    rw [Switched, Placed, since_concat, since_concat, ← Switched, ← Placed, ← ih.1, ← ih.2,
      List.filterMap_append, List.foldl_append]
    cases e with
    | setIsShowFPS isShowFPS keyWindow =>
      cases isShowFPS <;> cases keyWindow <;> simp [Event.switch, EyesPanel.flag]
    | _ => simp [List.filterMap_cons, Event.switch]

/-- What the floating view is after a history with these calls. -/
structure FloatingView (calls : List PanelCall) (h : List Event) (q : Monitor) : Prop where
  isShowFPS_iff : q.state.eyes.isShowFPS = true ↔ Switched h
  superview_iff : q.state.eyes.settingView.superview = true ↔ Placed h
  switches : calls.filterMap PanelCall.switch = h.filterMap Event.switch
  reports : ∀ i c, q.state.containers[i]? = some c →
    calls.filterMap (PanelCall.report i) = c.fps.reports
  title : q.state.eyes.settingView.title = EyesPanel.lastText "" (PanelCall.shown false calls)
  fps : q.state.eyes.fps = EyesPanel.lastText "" (PanelCall.reports calls)

theorem Traced.floatingView (hTraced : Traced h q calls) : FloatingView calls h q := by
  have hFlags := EyesPanel.panel_flags .new calls
  rw [← hTraced.eyes, hTraced.switches] at hFlags
  have hFlagsIff := flags_iff h
  rw [← show (q.state.eyes.isShowFPS, q.state.eyes.settingView.superview) =
    (h.filterMap Event.switch).foldl EyesPanel.flag (false, false) from hFlags] at hFlagsIff
  refine ⟨hFlagsIff.1, hFlagsIff.2, hTraced.switches, fun i c hc => ?_, ?_, ?_⟩
  · obtain ⟨-, rfl⟩ := getElem?_container hc
    exact hTraced.reports i
  · rw [hTraced.eyes]
    exact EyesPanel.panel_title .new calls
  · rw [hTraced.eyes]
    exact EyesPanel.panel_fps .new calls

/-- **The floating view.** In every state of a run it is shown as the switch was set last, it is
in a window if there was one to put it in, and its title is the last report that any container
has made at a time when it was shown. -/
theorem floating_view_of_run (F : FloatFormat) (events : List Event) :
    (step F).Always (fun h => FloatingView (callsOf F h) h) start events := by
  have hAlways : (step F).Always (fun h q => Traced h q (callsOf F h)) start events :=
    always_outputs (I := fun calls h q => Traced h q calls) ⟨rfl, rfl, fun i => rfl⟩
      fun calls h q e q' hTraced hStep => hTraced.step hStep
  exact hAlways.mono fun h q hTraced => hTraced.floatingView

end Monitor

end LeigodAPM
