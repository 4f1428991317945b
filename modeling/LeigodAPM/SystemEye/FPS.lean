import LeigodAPM.Foundation.Double
import LeigodAPM.Foundation.Run

/-!
# The frame rate monitor

An `FPS` counts the refreshes of its display link. `open`, `close` and the handlers of two
application notifications write the one flag `isPaused`, which does not remember who
paused the link; `init` decides which handler runs for which notification.

* `always_runsOnlyWhenOpen_iff`: the link is paused in the background and while the monitor
  is not open exactly when no `willResignActive` is posted, and `didBecomeActive` only while
  the monitor is open. `init` registers the handler that resumes the link for both.
-/

namespace LeigodAPM

open Foundation Machine

inductive Notification
  | willResignActive
  | didBecomeActive
  deriving DecidableEq

inductive FPSSelector
  | applicationWillResignActiveNotification
  | applicationDidBecomeActiveNotification
  deriving DecidableEq

structure DisplayLink where
  isPaused : Bool
  timestamp : Double
  frameInterval : ℤ

structure FPS where
  isEnable : Bool
  updateInterval : Double
  /-- A delegate is set and implements the optional method. -/
  delegate : Bool
  /-- Created at the first access. -/
  displayLink : Option DisplayLink
  count : ℤ
  lastTime : Double
  /-- What the object is registered for at the notification center. -/
  observers : List (FPSSelector × Notification)
  reports : List Double

namespace FPS

def new (delegate : Bool) : FPS where
  isEnable := true
  updateInterval := .fin 1
  delegate := delegate
  displayLink := none
  count := 0
  lastTime := .fin 0
  observers :=
    [(.applicationDidBecomeActiveNotification, .willResignActive),
      (.applicationDidBecomeActiveNotification, .didBecomeActive)]
  reports := []

/-- `self.displayLink`, which starts paused. -/
def link (s : FPS) : DisplayLink := s.displayLink.getD ⟨true, .fin 0, 1⟩

/-- `self.displayLink.isPaused = paused`. -/
def setPaused (s : FPS) (paused : Bool) : FPS :=
  { s with displayLink := some { s.link with isPaused := paused } }

def «open» (s : FPS) : FPS := if s.isEnable = true then s.setPaused false else s

def close (s : FPS) : FPS := if s.isEnable = true then s.setPaused true else s

def applicationWillResignActiveNotification (s : FPS) : FPS :=
  if s.isEnable = true then s.setPaused true else s

def applicationDidBecomeActiveNotification (s : FPS) : FPS :=
  if s.isEnable = true then s.setPaused false else s

def perform (s : FPS) : FPSSelector → FPS
  | .applicationWillResignActiveNotification => s.applicationWillResignActiveNotification
  | .applicationDidBecomeActiveNotification => s.applicationDidBecomeActiveNotification

/-- The notification center runs the selectors registered for the notification. -/
def post (s : FPS) (n : Notification) : FPS :=
  (s.observers.filter fun o => o.2 = n).foldl (fun s o => s.perform o.1) s

/-- The call of the delegate at the end of `displayLinkHandler`. -/
def report (s : FPS) (currentFPS : Double) : FPS :=
  if s.delegate = true then { s with reports := s.reports ++ [currentFPS] } else s

def displayLinkHandler (F : FloatFormat) (s : FPS) : FPS :=
  let s := { s with count := s.count + s.link.frameInterval }
  let interval := F.sub s.link.timestamp s.lastTime
  if s.updateInterval.le interval then
    let fps := F.div (F.ofRat s.count) interval
    { s with lastTime := s.link.timestamp, count := 0 }.report fps.round
  else s

/-- A refresh of the screen: the handler runs unless the link is paused. -/
def refresh (F : FloatFormat) (s : FPS) (timestamp : Double) (frameInterval : ℤ) : FPS :=
  if s.link.isPaused = true then s
  else { s with displayLink := some ⟨false, timestamp, frameInterval⟩ }.displayLinkHandler F

/-! ## Runs -/

inductive Event
  | open
  | close
  | post (n : Notification)
  | refresh (timestamp : Double) (frameInterval : ℤ)
  deriving DecidableEq

def step (F : FloatFormat) : Machine FPS Event
  | s, .open => some s.open
  | s, .close => some s.close
  | s, .post n => some (s.post n)
  | s, .refresh timestamp frameInterval => some (s.refresh F timestamp frameInterval)

/-- The application has resigned active, and since then neither become active again nor
has the monitor been opened. -/
def Resigned (h : List Event) : Prop :=
  Since (· = .post .willResignActive) (fun e => e = .post .didBecomeActive ∨ e = .open) h

/-- The monitor has been opened, and not closed since then. -/
def Opened (h : List Event) : Prop := Since (· = .open) (· = .close) h

structure RunsOnlyWhenOpen (F : FloatFormat) (h : List Event) (s : FPS) : Prop where
  resigned : Resigned h → s.link.isPaused = true
  not_opened : ¬ Opened h → s.link.isPaused = true ∧
    ∀ timestamp frameInterval, (s.refresh F timestamp frameInterval).reports = s.reports

/-- The notifications that do not resume a link that should be paused. -/
def Allowed (h : List Event) (e : Event) : Prop :=
  e ≠ .post .willResignActive ∧ (e = .post .didBecomeActive → Opened h)

/-! ## The paused flag -/

section Paused

variable {F : FloatFormat} {h : List Event} {s s' : FPS} {e : Event}

/-- The object is enabled and registered as `init` left it. -/
structure Registered (s : FPS) : Prop where
  isEnable : s.isEnable = true
  observers : s.observers = (new true).observers

theorem Registered.setPaused (hReg : Registered s) (paused : Bool) :
    Registered (s.setPaused paused) := ⟨hReg.isEnable, hReg.observers⟩

/-- Each of the two notifications resumes the link. -/
theorem post_eq (hReg : Registered s) (n : Notification) : s.post n = s.setPaused false := by
  have hResume : s.perform .applicationDidBecomeActiveNotification = s.setPaused false :=
    if_pos hReg.isEnable
  cases n with
  | willResignActive => simpa [post, hReg.observers, new] using hResume
  | didBecomeActive => simpa [post, hReg.observers, new] using hResume

theorem refresh_of_isPaused (hPaused : s.link.isPaused = true) (timestamp : Double)
    (frameInterval : ℤ) : s.refresh F timestamp frameInterval = s := if_pos hPaused

theorem displayLinkHandler_keeps (s : FPS) :
    (s.displayLinkHandler F).displayLink = s.displayLink ∧
      (s.displayLinkHandler F).isEnable = s.isEnable ∧
      (s.displayLinkHandler F).observers = s.observers := by
  simp only [displayLinkHandler, report]
  split
  · split <;> exact ⟨rfl, rfl, rfl⟩
  · exact ⟨rfl, rfl, rfl⟩

/-- A refresh does not pause or resume the link. -/
theorem refresh_keeps (hReg : Registered s) (timestamp : Double) (frameInterval : ℤ) :
    Registered (s.refresh F timestamp frameInterval) ∧
      (s.refresh F timestamp frameInterval).link.isPaused = s.link.isPaused := by
  cases hPaused : s.link.isPaused with
  | true =>
    rw [refresh_of_isPaused hPaused]
    exact ⟨hReg, hPaused⟩
  | false =>
    let fired : FPS := { s with displayLink := some ⟨false, timestamp, frameInterval⟩ }
    have hRun : s.refresh F timestamp frameInterval = fired.displayLinkHandler F :=
      if_neg (by simp [hPaused])
    obtain ⟨hLink, hEnable, hObservers⟩ := displayLinkHandler_keeps (F := F) fired
    rw [hRun]
    refine ⟨⟨hEnable.trans hReg.isEnable, hObservers.trans hReg.observers⟩, ?_⟩
    rw [link, hLink]
    rfl

theorem open_eq (hReg : Registered s) : s.open = s.setPaused false := if_pos hReg.isEnable

theorem close_eq (hReg : Registered s) : s.close = s.setPaused true := if_pos hReg.isEnable

/-- The flag after an event. -/
def Event.pauses (paused : Bool) : Event → Bool
  | .open => false
  | .close => true
  | .post _ => false
  | .refresh _ _ => paused

/-- Every event but a refresh only writes the flag. -/
theorem step_flag (hReg : Registered s) (hEvent : ∀ t i, e ≠ .refresh t i)
    (hStep : step F s e = some s') : s.setPaused (e.pauses s.link.isPaused) = s' := by
  cases e with
  | «open» => exact (open_eq hReg).symm.trans (Option.some.inj hStep)
  | close => exact (close_eq hReg).symm.trans (Option.some.inj hStep)
  | post n => exact (post_eq hReg n).symm.trans (Option.some.inj hStep)
  | refresh timestamp frameInterval => exact absurd rfl (hEvent timestamp frameInterval)

theorem step_isPaused (hReg : Registered s) (hStep : step F s e = some s') :
    Registered s' ∧ s'.link.isPaused = e.pauses s.link.isPaused := by
  cases e with
  | refresh timestamp frameInterval =>
    obtain rfl := Option.some.inj hStep
    exact refresh_keeps hReg timestamp frameInterval
  | _ =>
    obtain rfl := step_flag hReg (fun t i hEq => by cases hEq) hStep
    exact ⟨hReg.setPaused _, rfl⟩

/-! ## Runs from a new object -/

/-- What holds while only allowed notifications are posted. -/
structure Invariant (h : List Event) (s : FPS) : Prop where
  registered : Registered s
  not_resigned : ¬ Resigned h
  opened : s.link.isPaused = false → Opened h

theorem Invariant.runsOnlyWhenOpen (hInv : Invariant h s) : RunsOnlyWhenOpen F h s := by
  refine ⟨fun hResigned => absurd hResigned hInv.not_resigned, fun hNot => ?_⟩
  have hPaused : s.link.isPaused = true := by
    by_contra hRuns
    exact hNot (hInv.opened (by simpa using hRuns))
  exact ⟨hPaused, fun t i => by rw [refresh_of_isPaused hPaused]⟩

theorem Invariant.step (hInv : Invariant h s) (hAllowed : Allowed h e)
    (hStep : step F s e = some s') : Invariant (h ++ [e]) s' := by
  obtain ⟨hReg, hPaused⟩ := step_isPaused hInv.registered hStep
  refine ⟨hReg, ?_, fun hRuns => ?_⟩
  · intro hResigned
    rcases since_concat.mp hResigned with hPost | ⟨hResigned, -⟩
    · exact hAllowed.1 hPost
    · exact hInv.not_resigned hResigned
  · rw [hPaused] at hRuns
    apply since_concat.mpr
    cases e with
    | «open» => exact Or.inl rfl
    | close => cases hRuns
    | post n =>
      cases n with
      | willResignActive => exact absurd rfl hAllowed.1
      | didBecomeActive => exact Or.inr ⟨hAllowed.2 rfl, nofun⟩
    | refresh t i => exact Or.inr ⟨hInv.opened hRuns, nofun⟩

/-- Any other notification resumes a link that should be paused. -/
theorem not_runsOnlyWhenOpen (hInv : Invariant h s) (hNot : ¬ Allowed h e)
    (hStep : FPS.step F s e = some s') : ¬ RunsOnlyWhenOpen F (h ++ [e]) s' := by
  intro hRuns
  obtain ⟨-, hPaused⟩ := step_isPaused hInv.registered hStep
  by_cases hPost : e = .post .willResignActive
  · subst hPost
    have hTrue := hRuns.resigned (since_concat.mpr (Or.inl rfl))
    rw [hPaused] at hTrue
    cases hTrue
  · have hClosed : e = .post .didBecomeActive ∧ ¬ Opened h := by
      by_contra hElse
      exact hNot ⟨hPost, fun hEq => by_contra fun hOpen => hElse ⟨hEq, hOpen⟩⟩
    obtain ⟨rfl, hClosed⟩ := hClosed
    have hTrue := (hRuns.not_opened fun hOpened => ?_).1
    · rw [hPaused] at hTrue
      cases hTrue
    · rcases since_concat.mp hOpened with hOpen | ⟨hOpen, -⟩
      · cases hOpen
      · exact hClosed hOpen

end Paused

/-- **Paused when it should be.** The link of a new object is paused in the background and
while the monitor is not open, in every state of a run, exactly when no `willResignActive`
is posted in the run and `didBecomeActive` only while the monitor is open. -/
theorem always_runsOnlyWhenOpen_iff (F : FloatFormat) (delegate : Bool) (events : List Event) :
    (step F).Always (RunsOnlyWhenOpen F) (new delegate) events ↔
      (step F).EachStep (fun h _ e => Allowed h e) (new delegate) events := by
  have hNew : Invariant [] (new delegate) := ⟨⟨rfl, rfl⟩, not_since_nil, nofun⟩
  refine always_iff_eachStep hNew ?_ ?_ ?_
  · intro h s hInv
    exact hInv.runsOnlyWhenOpen
  · intro h s e s' hInv hAllowed hStep
    exact hInv.step hAllowed hStep
  · intro h s e s' hInv hNot hStep
    exact not_runsOnlyWhenOpen hInv hNot hStep

/-- The application resigns active while the monitor is open. -/
theorem resigned_not_paused :
    ¬ (step .exact).Always (RunsOnlyWhenOpen .exact) (new true)
      [.open, .post .willResignActive] := by
  intro hAlways
  have hLast := hAlways _ _ (List.prefix_refl _) rfl
  have hPaused := hLast.resigned ⟨[.open], .post .willResignActive, [], rfl, rfl, nofun⟩
  cases hPaused

end FPS

end LeigodAPM
