import LeigodAPM.Foundation.Windows
import LeigodAPM.SystemEye.FPS
import Mathlib.Algebra.BigOperators.Ring.Finset

/-!
# Frames are conserved

`displayLinkHandler` cuts the refreshes of the display link into windows at least
`updateInterval` wide. `measures` records what it computes at the end of each window,
before the rounding.

* `reports_run`: what the delegate is told are the rounded measures of the run.
* `run_follows`: in exact arithmetic `count` and `lastTime` are the pending ticks and the
  start of a cutter of the ticks that fired.
* `frames_conserved`: the measures and the pending count account for every frame.
-/

namespace LeigodAPM

open Foundation Machine

namespace FPS

/-- What one run of the handler computes from `count` and `lastTime`; `fps` is not rounded. -/
structure Measure (R : Type) where
  time : R
  interval : R
  fps : R

def Measure.map {R S : Type} (f : R → S) (m : Measure R) : Measure S :=
  ⟨f m.time, f m.interval, f m.fps⟩

/-- What `displayLinkHandler` computes when the window is wide enough. -/
def measure (F : FloatFormat) (s : FPS) : Option (Measure Double) :=
  let interval := F.sub s.link.timestamp s.lastTime
  if s.updateInterval.le interval then
    some ⟨s.link.timestamp, interval,
      F.div (F.ofRat ((s.count + s.link.frameInterval : ℤ) : ℚ)) interval⟩
  else none

/-- What an event makes the handler compute. -/
def measured (F : FloatFormat) (s : FPS) : Event → Option (Measure Double)
  | .refresh timestamp frameInterval =>
    if s.link.isPaused = true then none
    else { s with displayLink := some ⟨false, timestamp, frameInterval⟩ }.measure F
  | _ => none

/-- What the handler computes along a run. -/
def measures (F : FloatFormat) : FPS → List Event → List (Measure Double)
  | _, [] => []
  | s, e :: es =>
    (s.measured F e).toList ++ ((step F s e).elim [] fun s' => s'.measures F es)

/-- A new object with another `updateInterval`. -/
def created (delegate : Bool) (updateInterval : ℚ) : FPS :=
  { new delegate with updateInterval := .fin updateInterval }

/-! ## Events at rational times -/

inductive DisplayEvent
  | open
  | close
  | post (n : Notification)
  | tick (timestamp : ℚ) (frameInterval : ℤ)
  deriving DecidableEq

def DisplayEvent.event : DisplayEvent → Event
  | .open => .open
  | .close => .close
  | .post n => .post n
  | .tick timestamp frameInterval => .refresh (.fin timestamp) frameInterval

/-- A refresh that reached the handler. -/
structure Tick where
  time : ℚ
  frames : ℤ
  /-- The link was paused at some time since the tick before, or there was none. -/
  resumed : Bool
  deriving DecidableEq

/-- The refreshes that reach the handler, from a link that is `paused` now and has been
since the last of them if `resumed`. -/
def ticks : Bool → Bool → List DisplayEvent → List Tick
  | _, _, [] => []
  | true, resumed, .tick _ _ :: es => ticks true resumed es
  | false, resumed, .tick timestamp frameInterval :: es =>
    ⟨timestamp, frameInterval, resumed⟩ :: ticks false false es
  | paused, resumed, e :: es =>
    ticks (e.event.pauses paused) (resumed || e.event.pauses paused) es

/-- The ticks of a new object. -/
def fired (events : List DisplayEvent) : List Tick := ticks true true events

/-! ## Reports and measures -/

section Reports

variable {F : FloatFormat} {s s' : FPS} {e : Event} {es : List Event}

theorem displayLinkHandler_eq (s : FPS) : s.displayLinkHandler F =
    match s.measure F with
    | some m => { s with lastTime := m.time, count := 0 }.report m.fps.round
    | none => { s with count := s.count + s.link.frameInterval } := by
  by_cases hWide : s.updateInterval.le (F.sub s.link.timestamp s.lastTime) = true
  · have hMeasure : s.measure F = some ⟨s.link.timestamp, F.sub s.link.timestamp s.lastTime,
        F.div (F.ofRat ((s.count + s.link.frameInterval : ℤ) : ℚ))
          (F.sub s.link.timestamp s.lastTime)⟩ := if_pos hWide
    rw [hMeasure]
    exact if_pos hWide
  · have hMeasure : s.measure F = none := if_neg hWide
    rw [hMeasure]
    exact if_neg hWide

theorem report_eq (s : FPS) (d : Double) : s.report d =
    { s with reports := s.reports ++ if s.delegate = true then [d] else [] } := by
  unfold report
  split <;> simp

theorem displayLinkHandler_reports (s : FPS) :
    (s.displayLinkHandler F).delegate = s.delegate ∧
      (s.displayLinkHandler F).reports = s.reports ++
        if s.delegate = true then (s.measure F).toList.map (fun m => m.fps.round) else [] := by
  rw [displayLinkHandler_eq]
  cases s.measure F with
  | none => simp
  | some m => simp [report_eq]

/-- An event that only writes the flag makes the handler compute nothing. -/
theorem measured_flag (F : FloatFormat) (s : FPS) (hEvent : ∀ t i, e ≠ .refresh t i) :
    s.measured F e = none := by
  cases e with
  | refresh timestamp frameInterval => exact absurd rfl (hEvent timestamp frameInterval)
  | _ => rfl

/-- One event: the delegate is told the rounded measure, if there is one. -/
theorem reports_step (hReg : Registered s) (hStep : step F s e = some s') :
    s'.delegate = s.delegate ∧ s'.reports = s.reports ++
      if s.delegate = true then (s.measured F e).toList.map (fun m => m.fps.round) else [] := by
  cases e with
  | refresh timestamp frameInterval =>
    obtain rfl := Option.some.inj hStep
    by_cases hPaused : s.link.isPaused = true
    · rw [refresh_of_isPaused hPaused, measured, if_pos hPaused]
      simp
    · rw [refresh, measured, if_neg hPaused, if_neg hPaused]
      exact displayLinkHandler_reports _
  | _ =>
    obtain rfl := step_flag hReg (fun t i hEq => by cases hEq) hStep
    simp [measured, setPaused]

/-- **Reports.** What the delegate is told are the rounded measures. -/
theorem reports_run (hReg : Registered s) (hRun : (step F).run s es = some s') :
    s'.reports = s.reports ++
      if s.delegate = true then (s.measures F es).map (fun m => m.fps.round) else [] := by
  induction es generalizing s with
  | nil =>
    obtain rfl := Option.some.inj hRun
    simp [measures]
  | cons e es ih =>
    obtain ⟨s₁, hStep, hRest⟩ := Option.bind_eq_some_iff.mp hRun
    obtain ⟨hDelegate, hReports⟩ := reports_step hReg hStep
    rw [ih (step_isPaused hReg hStep).1 hRest, hReports, hDelegate, measures, hStep]
    cases s.delegate <;> simp

end Reports

/-! ## The ticks, cut into windows -/

section Windows

variable {u : ℚ} {s s' : FPS} {ms : List (Measure Double)} {c : Cutter ℚ Tick}

/-- The frames of a list of ticks. -/
def frames (l : List Tick) : ℤ := (l.map fun t => t.frames).sum

/-- What the handler computes at the end of a window. -/
def windowMeasure (w : Window ℚ Tick) : Measure ℚ :=
  ⟨w.stop, w.stop - w.start, frames w.items / (w.stop - w.start)⟩

/-- The object is at the point of the cutter `c`, and the handler has computed `ms`. -/
structure Follows (u : ℚ) (s : FPS) (ms : List (Measure Double)) (c : Cutter ℚ Tick) : Prop where
  registered : Registered s
  updateInterval : s.updateInterval = .fin u
  lastTime : s.lastTime = .fin c.start
  count : s.count = frames c.pending
  measures : ms = c.windows.map fun w => (windowMeasure w).map .fin

theorem follows_created (delegate : Bool) (u : ℚ) :
    Follows u (created delegate u) [] (.new 0) where
  registered := ⟨rfl, rfl⟩
  updateInterval := rfl
  lastTime := rfl
  count := rfl
  measures := rfl

theorem Follows.setPaused (hFollows : Follows u s ms c) (paused : Bool) :
    Follows u (s.setPaused paused) ms c where
  registered := hFollows.registered.setPaused paused
  updateInterval := hFollows.updateInterval
  lastTime := hFollows.lastTime
  count := hFollows.count
  measures := hFollows.measures

/-- The measure at a tick, when the window that the tick would close is wide enough. -/
theorem Follows.measure_eq (hu : 0 < u) {timestamp : ℚ} {frameInterval : ℤ} (resumed : Bool)
    (hFollows : Follows u s ms c)
    (hLink : s.displayLink = some ⟨false, .fin timestamp, frameInterval⟩) :
    s.measure .exact = if u ≤ timestamp - c.start then
      some ((windowMeasure ⟨c.start, timestamp,
        c.pending ++ [⟨timestamp, frameInterval, resumed⟩]⟩).map .fin) else none := by
  have hTimestamp : s.link.timestamp = .fin timestamp := by simp [link, hLink]
  have hInterval : s.link.frameInterval = frameInterval := by simp [link, hLink]
  have hSub : FloatFormat.exact.sub s.link.timestamp s.lastTime =
      .fin (timestamp - c.start) := by
    rw [hTimestamp, hFollows.lastTime]
    exact FloatFormat.ofRat_exact _
  rw [measure, hSub, hFollows.updateInterval]
  by_cases hWide : u ≤ timestamp - c.start
  · have hNe : timestamp - c.start ≠ 0 := by linarith
    have hLe : (Double.fin u).le (.fin (timestamp - c.start)) = true := decide_eq_true hWide
    rw [if_pos hWide, if_pos hLe]
    simp [windowMeasure, Measure.map, frames, hTimestamp, hInterval, hFollows.count,
      FloatFormat.div_fin hNe]
  · rw [if_neg hWide]
    exact if_neg (by simpa [Double.le] using hWide)

/-- One run of the handler is one cut. -/
theorem Follows.displayLinkHandler (hu : 0 < u) {timestamp : ℚ} {frameInterval : ℤ}
    (resumed : Bool) (hFollows : Follows u s ms c)
    (hLink : s.displayLink = some ⟨false, .fin timestamp, frameInterval⟩) :
    Follows u (s.displayLinkHandler .exact) (ms ++ (s.measure .exact).toList)
      (c.cut (fun t => t.time) u ⟨timestamp, frameInterval, resumed⟩) := by
  obtain ⟨-, hEnable, hObservers⟩ := displayLinkHandler_keeps (F := .exact) s
  have hReg : Registered (s.displayLinkHandler .exact) :=
    ⟨hEnable.trans hFollows.registered.isEnable, hObservers.trans hFollows.registered.observers⟩
  have hInterval : s.link.frameInterval = frameInterval := by simp [link, hLink]
  by_cases hWide : u ≤ timestamp - c.start
  · have hMeasure := hFollows.measure_eq hu resumed hLink
    rw [if_pos hWide] at hMeasure
    rw [Cutter.cut_of_le hWide]
    refine ⟨hReg, ?_, ?_, ?_, ?_⟩
    · simpa [displayLinkHandler_eq, hMeasure, report_eq] using hFollows.updateInterval
    · simp [displayLinkHandler_eq, hMeasure, report_eq, windowMeasure, Measure.map]
    · simp [displayLinkHandler_eq, hMeasure, report_eq, frames]
    · simp [hMeasure, hFollows.measures]
  · have hMeasure := hFollows.measure_eq hu resumed hLink
    rw [if_neg hWide] at hMeasure
    rw [Cutter.cut_of_not_le hWide]
    refine ⟨hReg, ?_, ?_, ?_, ?_⟩
    · simpa [displayLinkHandler_eq, hMeasure] using hFollows.updateInterval
    · simpa [displayLinkHandler_eq, hMeasure] using hFollows.lastTime
    · simp [displayLinkHandler_eq, hMeasure, hFollows.count, hInterval, frames]
    · simp [hMeasure, hFollows.measures]

theorem Follows.fire (hFollows : Follows u s ms c) (timestamp : ℚ) (frameInterval : ℤ) :
    Follows u { s with displayLink := some ⟨false, .fin timestamp, frameInterval⟩ } ms c where
  registered := ⟨hFollows.registered.isEnable, hFollows.registered.observers⟩
  updateInterval := hFollows.updateInterval
  lastTime := hFollows.lastTime
  count := hFollows.count
  measures := hFollows.measures

/-- A refresh of a running link is one cut. -/
theorem Follows.refresh (hu : 0 < u) (timestamp : ℚ) (frameInterval : ℤ) (resumed : Bool)
    (hFollows : Follows u s ms c) (hRuns : s.link.isPaused = false) :
    Follows u (s.refresh .exact (.fin timestamp) frameInterval)
      (ms ++ (s.measured .exact (.refresh (.fin timestamp) frameInterval)).toList)
      (c.cut (fun t => t.time) u ⟨timestamp, frameInterval, resumed⟩) := by
  have hNot : ¬ s.link.isPaused = true := by simp [hRuns]
  rw [FPS.refresh, measured, if_neg hNot, if_neg hNot]
  exact (hFollows.fire timestamp frameInterval).displayLinkHandler hu resumed rfl

/-- An event that only writes the flag. -/
theorem Follows.flag (hFollows : Follows u s ms c) {e : Event} (hStep : step .exact s e = some s')
    (hEvent : ∀ t i, e ≠ .refresh t i) :
    Follows u s' (ms ++ (s.measured .exact e).toList) c := by
  obtain rfl := step_flag hFollows.registered hEvent hStep
  rw [measured_flag .exact s hEvent, Option.toList_none, List.append_nil]
  exact hFollows.setPaused _

/-- **Refinement.** A run follows the cutter of the ticks that fired. -/
theorem run_follows (hu : 0 < u) (events : List DisplayEvent) (resumed : Bool)
    (hFollows : Follows u s ms c) :
    ∃ s', (step .exact).run s (events.map DisplayEvent.event) = some s' ∧
      Follows u s' (ms ++ s.measures .exact (events.map DisplayEvent.event))
        (c.cutAll (fun t => t.time) u (ticks s.link.isPaused resumed events)) := by
  induction events generalizing s ms c resumed with
  | nil => 
    refine ⟨s, rfl, ?_⟩
    simpa [measures, Cutter.cutAll, ticks] using hFollows
  | cons e events ih =>
    obtain ⟨s₁, hStep⟩ : ∃ s₁, step .exact s e.event = some s₁ := by
      cases e <;> exact ⟨_, rfl⟩
    have hPaused := (step_isPaused hFollows.registered hStep).2
    have hMeasures : s.measures .exact ((e :: events).map DisplayEvent.event) =
        (s.measured .exact e.event).toList ++
          s₁.measures .exact (events.map DisplayEvent.event) := by
      simp [measures, hStep]
    have hRun : (step .exact).run s ((e :: events).map DisplayEvent.event) =
        (step .exact).run s₁ (events.map DisplayEvent.event) := by
      simp [hStep]
    rw [hMeasures, hRun, ← List.append_assoc]
    -- An event that only writes the flag leaves the cutter where it is.
    have hFlag : (∀ t i, e.event ≠ .refresh t i) →
        ticks s.link.isPaused resumed (e :: events) =
          ticks s₁.link.isPaused (resumed || s₁.link.isPaused) events → _ :=
      fun hEvent hTicks => hTicks ▸ ih (resumed || s₁.link.isPaused) (hFollows.flag hStep hEvent)
    rw [hPaused] at hFlag
    cases e with
    | «open» => exact hFlag (fun t i hEq => by cases hEq) rfl
    | close => exact hFlag (fun t i hEq => by cases hEq) rfl
    | post n => exact hFlag (fun t i hEq => by cases hEq) rfl
    | tick timestamp frameInterval =>
      obtain rfl := Option.some.inj hStep
      cases hRuns : s.link.isPaused with
      | true =>
        have hNone : s.measured .exact (.refresh (.fin timestamp) frameInterval) = none :=
          if_pos hRuns
        have hIh := ih resumed hFollows
        rw [hRuns] at hIh
        simpa [DisplayEvent.event, ticks, hNone, refresh_of_isPaused hRuns] using hIh
      | false =>
        have hIh := ih false (hFollows.refresh hu timestamp frameInterval resumed hRuns)
        rw [DisplayEvent.event, Event.pauses, hRuns] at hPaused
        rw [hPaused] at hIh
        exact hIh

end Windows

/-- The windows into which `displayLinkHandler` cuts the ticks of a run. -/
def windows (u : ℚ) (events : List DisplayEvent) : List (Window ℚ Tick) :=
  ((Cutter.new 0).cutAll (fun t : Tick => t.time) u (fired events)).windows

/-- A run from a new object: one report for each window of its ticks. -/
theorem run_created (delegate : Bool) {u : ℚ} (hu : 0 < u) (events : List DisplayEvent) :
    ∃ s, (step .exact).run (created delegate u) (events.map DisplayEvent.event) = some s ∧
      Follows u s ((created delegate u).measures .exact (events.map DisplayEvent.event))
        ((Cutter.new 0).cutAll (fun t => t.time) u (fired events)) ∧
      s.reports = if delegate = true then
        ((windows u events).map windowMeasure).map fun m => (Double.fin m.fps).round else [] := by
  obtain ⟨s, hRun, hFollows⟩ := run_follows hu events true (follows_created delegate u)
  refine ⟨s, hRun, hFollows, ?_⟩
  have hMeasures : (created delegate u).measures .exact (events.map DisplayEvent.event) = _ :=
    hFollows.measures
  rw [reports_run (s := created delegate u) ⟨rfl, rfl⟩ hRun, hMeasures, List.map_map, List.map_map]
  rfl

/-! ## Conservation -/

/-- The state `s` after the ticks `fired`, when `displayLinkHandler` has made the
measurements `reports`. -/
structure FramesConserved (u : ℚ) (fired : List Tick) (reports : List (Measure ℚ)) (s : FPS) :
    Prop where
  frames_eq : (reports.map fun m => m.fps * m.interval).sum + s.count = frames fired
  interval_sum : s.lastTime = .fin (reports.map fun m => m.interval).sum
  last_report : s.lastTime = .fin ((reports.map fun m => m.time).getLastD 0)
  apart : reports.IsChain fun m m' => u ≤ m'.time - m.time
  interval_ne_zero : ∀ m ∈ reports, m.interval ≠ 0
  /-- A tick that comes `updateInterval` after the last report makes one. -/
  prompt : ∀ (timestamp lastTime : ℚ) (frameInterval : ℤ), s.link.isPaused = false →
    s.lastTime = .fin lastTime → u ≤ timestamp - lastTime →
    ∃ m, s.measured .exact (.refresh (.fin timestamp) frameInterval) = some m

theorem Follows.framesConserved {u : ℚ} {s : FPS} {ms : List (Measure Double)}
    {c : Cutter ℚ Tick} {fired : List Tick} (hu : 0 < u) (hFollows : Follows u s ms c)
    (hCut : c.IsCut (fun t => t.time) u 0 fired) :
    FramesConserved u fired (c.windows.map windowMeasure) s := by
  have hNe : ∀ w ∈ c.windows, w.stop - w.start ≠ 0 := by
    intro w hw
    have := hCut.wide w hw
    linarith
  constructor
  · have hSum := hCut.sum_eq fun t => t.frames
    have hProducts : (c.windows.map windowMeasure).map (fun m => m.fps * m.interval) =
        (c.windows.map fun w => frames w.items).map Int.cast := by
      rw [List.map_map, List.map_map]
      apply List.map_congr_left
      intro w hw
      exact div_mul_cancel₀ _ (hNe w hw)
    rw [hProducts, hFollows.count, ← Int.cast_list_sum]
    exact_mod_cast hSum
  · have hLength := hCut.length
    rw [zero_add] at hLength
    rw [hFollows.lastTime, ← hLength, List.map_map]
    rfl
  · rw [hFollows.lastTime, hCut.start, List.map_map]
    rfl
  · exact (List.isChain_map windowMeasure).mpr hCut.apart
  · intro m hm
    obtain ⟨w, hw, rfl⟩ := List.mem_map.mp hm
    exact hNe w hw
  · intro timestamp lastTime frameInterval hRuns hLast hWide
    obtain rfl : c.start = lastTime := Double.fin.inj (hFollows.lastTime.symm.trans hLast)
    have hMeasure := (hFollows.fire timestamp frameInterval).measure_eq hu true rfl
    rw [if_pos hWide] at hMeasure
    exact ⟨_, (if_neg (by simp [hRuns])).trans hMeasure⟩

/-- **Conservation of frames.** At every point of a run in exact arithmetic the reports, each
times its interval, and the pending count add up to the frames of the ticks that reached the
handler; the intervals of the reports lead up to the last of them, without a gap. -/
theorem frames_conserved (delegate : Bool) (u : ℚ) (hu : 0 < u) (events : List DisplayEvent) :
    ∃ s reports, (step .exact).run (created delegate u) (events.map DisplayEvent.event) = some s ∧
      (created delegate u).measures .exact (events.map DisplayEvent.event) =
        reports.map (Measure.map .fin) ∧
      s.reports = (if delegate = true then
        reports.map fun m => (Double.fin m.fps).round else []) ∧
      FramesConserved u (fired events) reports s := by
  obtain ⟨s, hRun, hFollows, hReports⟩ := run_created delegate hu events
  have hCut := Cutter.isCut_cutAll (fun t : Tick => t.time) u 0 (fired events)
  refine ⟨s, _, hRun, ?_, hReports, hFollows.framesConserved hu hCut⟩
  rw [hFollows.measures, windows, List.map_map]
  rfl

theorem frames_conserved_of_four_ticks :
    ∃ s reports, (step .exact).run (created true 1)
        ([.open, .tick (1/2) 1, .tick 1 2, .close, .open, .tick 3 1, .tick (7/2) 1].map
          DisplayEvent.event) = some s ∧
      (created true 1).measures .exact
        ([.open, .tick (1/2) 1, .tick 1 2, .close, .open, .tick 3 1, .tick (7/2) 1].map
          DisplayEvent.event) = reports.map (Measure.map .fin) ∧
      s.reports = (if true = true then reports.map fun m => (Double.fin m.fps).round else []) ∧
      FramesConserved 1 (fired [.open, .tick (1/2) 1, .tick 1 2, .close, .open, .tick 3 1,
        .tick (7/2) 1]) reports s :=
  frames_conserved true 1 one_pos _

end FPS

end LeigodAPM
