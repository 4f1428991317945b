import LeigodAPM.Foundation.Run
import LeigodAPM.SystemEye.NetObjc
import Mathlib.Data.List.Pairwise
import Mathlib.Data.Rat.Defs

/-!
# Network sampling

`execute` takes a sample, keeps the first one of the object's life as baseline, subtracts
it from all later ones with Swift's checked `-=`, and calls the delegate. `open` and `close`
start and cancel the thread that executes; they do not touch the baseline.

* `run_isSome_iff`: a run never traps exactly when no sample is below the baseline.
* `reports_iff_first_zero`: for samples that do not decrease, every report is the traffic
  since the first sample exactly when the first sample is zero, because the first report
  carries the sample itself.
-/

namespace LeigodAPM

open Foundation Machine

namespace NetModel

/-- The four `-=` of `execute`; `none` when one of them underflows. -/
def subtract (model first : NetModel) : Option NetModel := do
  let wifiSend ← checkedSub model.wifiSend first.wifiSend
  let wifiReceived ← checkedSub model.wifiReceived first.wifiReceived
  let wwanSend ← checkedSub model.wwanSend first.wwanSend
  let wwanReceived ← checkedSub model.wwanReceived first.wwanReceived
  pure ⟨wifiSend, wifiReceived, wwanSend, wwanReceived⟩

/-- Componentwise difference. -/
instance : Sub NetModel :=
  ⟨fun m m' => ⟨m.wifiSend - m'.wifiSend, m.wifiReceived - m'.wifiReceived,
    m.wwanSend - m'.wwanSend, m.wwanReceived - m'.wwanReceived⟩⟩

@[simp] theorem sub_get (m m' : NetModel) (c : NetCounter) :
    (m - m').get c = m.get c - m'.get c := by
  cases c <;> rfl

@[simp] theorem sub_zero (m : NetModel) : m - zero = m := by
  ext c
  simp

theorem subtract_of_le {model first : NetModel} (h : first ≤ model) :
    model.subtract first = some (model - first) := by
  have h1 : first.wifiSend ≤ model.wifiSend := h .wifiSend
  have h2 : first.wifiReceived ≤ model.wifiReceived := h .wifiReceived
  have h3 : first.wwanSend ≤ model.wwanSend := h .wwanSend
  have h4 : first.wwanReceived ≤ model.wwanReceived := h .wwanReceived
  simp only [subtract, checkedSub_of_le h1, checkedSub_of_le h2, checkedSub_of_le h3,
    checkedSub_of_le h4]
  rfl

theorem le_of_subtract {model first d : NetModel} (h : model.subtract first = some d) :
    first ≤ model := by
  simp only [subtract, Option.bind_eq_bind, Option.bind_eq_some_iff] at h
  obtain ⟨a1, h1, a2, h2, a3, h3, a4, h4, -⟩ := h
  have hLe : ∀ {a b d : UInt32}, checkedSub a b = some d → b ≤ a := by
    intro a b d hSub
    by_contra hNot
    rw [checkedSub_eq_none.mpr hNot] at hSub
    cases hSub
  intro c
  cases c
  · exact hLe h1
  · exact hLe h2
  · exact hLe h3
  · exact hLe h4

end NetModel

/-! ## The object and its threads -/

/-- Where a worker thread is in the loop of `eyeThreadHandler`. -/
inductive EyePc
  | test
  | execute
  | sleep
  | exited
  deriving DecidableEq

/-- A `Thread` that runs `eyeThreadHandler`. -/
structure EyeThread where
  name : Option String
  started : Bool
  isCancelled : Bool
  pc : EyePc
  deriving DecidableEq

/-- A `NetworkFlow`, the threads it has created so far, and the calls of its delegate.
Threads are named by their position in `threads`. -/
structure NetworkFlow where
  /-- A delegate is set and implements the optional method. -/
  delegate : Bool
  eyeThread : Option ℕ
  timeInterval : Option ℚ
  first_model : Option NetModel
  threads : List EyeThread
  reports : List NetModel

namespace NetworkFlow

/-- A new object. -/
def new (delegate : Bool) : NetworkFlow where
  delegate := delegate
  eyeThread := none
  timeInterval := none
  first_model := none
  threads := []
  reports := []

/-- The statements of `open` and `close`. -/
inductive Stmt
  | setTimeInterval (t : ℚ)
  | cancelThread
  | clearThread
  | newThread
  | nameThread
  | startThread

/-- `self.eyeThread?` followed by a change of that thread. -/
def onThread (s : NetworkFlow) (f : EyeThread → EyeThread) : NetworkFlow :=
  match s.eyeThread with
  | some i => { s with threads := s.threads.modify i f }
  | none => s

def exec (s : NetworkFlow) : Stmt → NetworkFlow
  | .setTimeInterval t => { s with timeInterval := some t }
  | .cancelThread => s.onThread fun th => { th with isCancelled := true }
  | .clearThread => { s with eyeThread := none }
  | .newThread =>
    { s with
      eyeThread := some s.threads.length
      threads := s.threads ++ [⟨none, false, false, .test⟩] }
  | .nameThread => s.onThread fun th => { th with name := some "SystemEye_Net" }
  | .startThread => s.onThread fun th => { th with started := true }

def closeBody : List Stmt := [.cancelThread, .clearThread]

def openBody (timeInterval : ℚ) : List Stmt :=
  .setTimeInterval timeInterval :: closeBody ++ [.newThread, .nameThread, .startThread]

def «open» (s : NetworkFlow) (timeInterval : ℚ) : NetworkFlow :=
  (openBody timeInterval).foldl exec s

def close (s : NetworkFlow) : NetworkFlow := closeBody.foldl exec s

/-- The call of the delegate at the end of `execute`. -/
def report (s : NetworkFlow) (model : NetModel) : NetworkFlow :=
  if s.delegate = true then { s with reports := s.reports ++ [model] } else s

/-- `execute` on a sample of `NetObjc.flow()`; `none` when a subtraction underflows. -/
def execute (s : NetworkFlow) (model : NetModel) : Option NetworkFlow :=
  match s.first_model with
  | none => some ({ s with first_model := some model }.report model)
  | some first => (model.subtract first).map s.report

/-! ## Runs -/

/-- The calls of a run whose executions do not overlap. -/
inductive Call
  | open (timeInterval : ℚ)
  | close
  | execute (sample : NetModel)

def step : Machine NetworkFlow Call
  | s, .open t => some (s.open t)
  | s, .close => some s.close
  | s, .execute m => s.execute m

/-- The samples of a run, in order. -/
def samples (calls : List Call) : List NetModel :=
  calls.filterMap fun
    | .execute m => some m
    | _ => none

@[simp] theorem samples_nil : samples [] = [] := rfl

@[simp] theorem samples_open (t : ℚ) (calls : List Call) :
    samples (.open t :: calls) = samples calls := rfl

@[simp] theorem samples_close (calls : List Call) : samples (.close :: calls) = samples calls := rfl

@[simp] theorem samples_execute (m : NetModel) (calls : List Call) :
    samples (.execute m :: calls) = m :: samples calls := rfl

/-! ## The baseline -/

/-- Two objects with the same delegate, baseline and reports: all that `execute` reads or
writes. -/
def Agrees (s s' : NetworkFlow) : Prop :=
  s.delegate = s'.delegate ∧ s.first_model = s'.first_model ∧ s.reports = s'.reports

theorem onThread_agrees (s : NetworkFlow) (f : EyeThread → EyeThread) :
    Agrees (s.onThread f) s := by
  unfold onThread
  split
  · exact ⟨rfl, rfl, rfl⟩
  · exact ⟨rfl, rfl, rfl⟩

theorem exec_agrees (s : NetworkFlow) (c : Stmt) : Agrees (s.exec c) s := by
  cases c with
  | cancelThread => exact onThread_agrees s _
  | nameThread => exact onThread_agrees s _
  | startThread => exact onThread_agrees s _
  | setTimeInterval t => exact ⟨rfl, rfl, rfl⟩
  | clearThread => exact ⟨rfl, rfl, rfl⟩
  | newThread => exact ⟨rfl, rfl, rfl⟩

theorem foldl_exec_agrees (body : List Stmt) (s : NetworkFlow) :
    Agrees (body.foldl exec s) s := by
  induction body generalizing s with
  | nil => exact ⟨rfl, rfl, rfl⟩
  | cons c body ih =>
    obtain ⟨h1, h2, h3⟩ := ih (s.exec c)
    obtain ⟨g1, g2, g3⟩ := exec_agrees s c
    exact ⟨h1.trans g1, h2.trans g2, h3.trans g3⟩

/-- A call that does not execute takes no sample and keeps what `execute` reads. -/
theorem call_cases (s : NetworkFlow) (call : Call) :
    (∃ m, call = .execute m) ∨ ((∀ calls, samples (call :: calls) = samples calls) ∧
      ∃ s₁, step s call = some s₁ ∧ Agrees s₁ s) := by
  cases call with
  | «open» t => exact Or.inr ⟨samples_open t, _, rfl, foldl_exec_agrees (openBody t) s⟩
  | close => exact Or.inr ⟨samples_close, _, rfl, foldl_exec_agrees closeBody s⟩
  | execute m => exact Or.inl ⟨m, rfl⟩

@[simp] theorem report_first_model (s : NetworkFlow) (m : NetModel) :
    (s.report m).first_model = s.first_model := by
  unfold report
  split <;> rfl

@[simp] theorem report_delegate (s : NetworkFlow) (m : NetModel) :
    (s.report m).delegate = s.delegate := by
  unfold report
  split <;> rfl

theorem report_reports {s : NetworkFlow} (hSet : s.delegate = true) (m : NetModel) :
    (s.report m).reports = s.reports ++ [m] := by
  rw [report, if_pos hSet]

/-- After the first sample every call succeeds as long as no sample is below the baseline. -/
theorem run_of_baseline {s : NetworkFlow} {first : NetModel} (hFirst : s.first_model = some first)
    {calls : List Call} (hLe : ∀ m ∈ samples calls, first ≤ m) :
    ∃ s', step.run s calls = some s' ∧ (s.delegate = true →
      s'.reports = s.reports ++ (samples calls).map (· - first)) := by
  induction calls generalizing s with
  | nil => exact ⟨s, rfl, by simp⟩
  | cons call calls ih =>
    rcases call_cases s call with ⟨m, rfl⟩ | ⟨hSamples, s₁, hStep, hDelegate, hModel, hReports⟩
    · simp only [samples_execute, List.mem_cons, forall_eq_or_imp] at hLe
      obtain ⟨hm, hLe⟩ := hLe
      have hStep : step s (.execute m) = some (s.report (m - first)) := by
        simp only [step, execute, hFirst, NetModel.subtract_of_le hm, Option.map_some]
      obtain ⟨s', hRun, h⟩ := ih ((report_first_model s (m - first)).trans hFirst) hLe
      refine ⟨s', by rw [run_cons, hStep]; exact hRun, fun hSet => ?_⟩
      rw [h ((report_delegate s (m - first)).trans hSet), report_reports hSet]
      simp
    · rw [hSamples] at hLe
      obtain ⟨s', hRun, h⟩ := ih (hModel.trans hFirst) hLe
      refine ⟨s', by rw [run_cons, hStep]; exact hRun, fun hSet => ?_⟩
      rw [h (hDelegate.trans hSet), hReports, hSamples]

/-- A sample below the baseline stops the program. -/
theorem le_of_run {s s' : NetworkFlow} {first : NetModel} (hFirst : s.first_model = some first)
    {calls : List Call} (hRun : step.run s calls = some s') : ∀ m ∈ samples calls, first ≤ m := by
  induction calls generalizing s with
  | nil => simp
  | cons call calls ih =>
    obtain ⟨s₁, hStep, hRest⟩ := Option.bind_eq_some_iff.mp hRun
    rcases call_cases s call with ⟨m, rfl⟩ | ⟨hSamples, s₂, hStep', -, hModel, -⟩
    · simp only [step, execute, hFirst] at hStep
      obtain ⟨d, hd, rfl⟩ := Option.map_eq_some_iff.mp hStep
      rw [samples_execute]
      intro m' hm'
      rcases List.mem_cons.mp hm' with rfl | hm'
      · exact NetModel.le_of_subtract hd
      · exact ih ((report_first_model s d).trans hFirst) hRest m' hm'
    · obtain rfl : s₂ = s₁ := Option.some.inj (hStep'.symm.trans hStep)
      rw [hSamples]
      exact ih (hModel.trans hFirst) hRest

/-! ## Runs from a new object -/

/-- Until the first sample nothing is reported; the first sample becomes the baseline. -/
theorem run_split {s : NetworkFlow} (hFirst : s.first_model = none) (calls : List Call) :
    (samples calls = [] ∧ ∃ s', step.run s calls = some s' ∧ s'.reports = s.reports) ∨
      ∃ first rest s₁, samples calls = first :: samples rest ∧ s₁.first_model = some first ∧
        s₁.delegate = s.delegate ∧ step.run s calls = step.run s₁ rest ∧
        (s.delegate = true → s₁.reports = s.reports ++ [first]) := by
  induction calls generalizing s with
  | nil => exact Or.inl ⟨rfl, s, rfl, rfl⟩
  | cons call calls ih =>
    rcases call_cases s call with ⟨m, rfl⟩ | ⟨hSamples, s₁, hStep, hDelegate, hModel, hReports⟩
    · refine Or.inr ⟨m, calls, { s with first_model := some m }.report m, rfl, ?_, ?_, ?_, ?_⟩
      · exact report_first_model _ m
      · exact report_delegate _ m
      · simp [step, execute, hFirst]
      · intro hSet
        exact report_reports (s := { s with first_model := some m }) hSet m
    · have h := ih (hModel.trans hFirst)
      rw [hDelegate, hReports] at h
      rw [hSamples, run_cons, hStep]
      exact h

/-- **Trapping.** A run succeeds exactly when every sample after the first is, in each of
the four counters, at least the first. -/
theorem run_isSome_iff (delegate : Bool) (calls : List Call) :
    (step.run (new delegate) calls).isSome ↔
      ∀ first rest, samples calls = first :: rest → ∀ m ∈ rest, first ≤ m := by
  have hNew : (new delegate).first_model = none := rfl
  rcases run_split hNew calls with ⟨hNil, s', hRun, -⟩ |
      ⟨first, rest, s₁, hSamples, hModel, -, hRun, -⟩
  · rw [hRun, hNil]
    simp
  · rw [hRun, hSamples]
    constructor
    · intro hSome first' rest' hEq
      obtain ⟨rfl, rfl⟩ := List.cons.inj hEq
      obtain ⟨s', hs'⟩ := Option.isSome_iff_exists.mp hSome
      exact le_of_run hModel hs'
    · intro hLe
      obtain ⟨s', hs', -⟩ := run_of_baseline hModel (hLe first _ rfl)
      rw [hs']
      rfl

/-- A counter that is smaller than in the first sample. -/
theorem smaller_sample_traps :
    ¬ (step.run (new true) [.execute ⟨5, 0, 0, 0⟩, .execute ⟨4, 0, 0, 0⟩]).isSome := by
  decide

/-! ## Reports -/

/-- The reports are the traffic since the first sample. -/
structure TrafficSinceFirst (samples reports : List NetModel) : Prop where
  length_eq : reports.length = samples.length
  kth : ∀ (k : ℕ) (first m r : NetModel), samples[0]? = some first → samples[k]? = some m →
    reports[k]? = some r → ∀ c, (r.get c).toNat + (first.get c).toNat = (m.get c).toNat
  first_zero : ∀ r : NetModel, reports[0]? = some r → r = .zero
  monotone : ∀ (k : ℕ) (r r' : NetModel), reports[k]? = some r → reports[k + 1]? = some r' →
    r ≤ r'
  interval : ∀ (k : ℕ) (m m' r r' : NetModel), samples[k]? = some m → samples[k + 1]? = some m' →
    reports[k]? = some r → reports[k + 1]? = some r' →
    ∀ c, (r'.get c).toNat + (m.get c).toNat = (r.get c).toNat + (m'.get c).toNat

/-- Samples that start at zero are their own traffic. -/
theorem trafficSinceFirst_self {l : List NetModel} (hMono : (.zero :: l).Pairwise (· ≤ ·)) :
    TrafficSinceFirst (.zero :: l) (.zero :: l) := by
  refine ⟨rfl, ?_, ?_, ?_, ?_⟩
  · intro k first m r hFirst hm hr c
    obtain rfl : .zero = first := Option.some.inj hFirst
    obtain rfl : m = r := Option.some.inj (hm.symm.trans hr)
    simp
  · intro r hr
    exact (Option.some.inj hr).symm
  · intro k r r' hr hr'
    obtain ⟨hk, rfl⟩ := List.getElem?_eq_some_iff.mp hr
    obtain ⟨hk', rfl⟩ := List.getElem?_eq_some_iff.mp hr'
    exact List.pairwise_iff_getElem.mp hMono k (k + 1) hk hk' (by omega)
  · intro k m m' r r' hm hm' hr hr' c
    obtain rfl : m = r := Option.some.inj (hm.symm.trans hr)
    obtain rfl : m' = r' := Option.some.inj (hm'.symm.trans hr')
    omega

/-- **Reports.** For samples that never decrease the run succeeds, and its reports are the
traffic since the first sample exactly when that sample is zero in each counter. -/
theorem reports_iff_first_zero (calls : List Call) (hMono : (samples calls).Pairwise (· ≤ ·)) :
    ∃ s, step.run (new true) calls = some s ∧
      (TrafficSinceFirst (samples calls) s.reports ↔
        ∀ first, (samples calls).head? = some first → first = .zero) := by
  have hNew : (new true).first_model = none := rfl
  rcases run_split hNew calls with ⟨hNil, s', hRun, hReports⟩ |
      ⟨first, rest, s₁, hSamples, hModel, hDelegate, hRun, hReports⟩
  · refine ⟨s', hRun, iff_of_true ?_ (by simp [hNil])⟩
    have hNone : s'.reports = [] := hReports
    rw [hNil, hNone]
    constructor <;> simp
  · rw [hSamples, List.pairwise_cons] at hMono
    obtain ⟨s', hs', hRest⟩ := run_of_baseline hModel hMono.1
    refine ⟨s', hRun.trans hs', ?_⟩
    have hAll : s'.reports = first :: (samples rest).map (· - first) := by
      rw [hRest hDelegate, hReports rfl]
      rfl
    rw [hSamples, hAll]
    constructor
    · intro hTraffic first' hHead
      obtain rfl := Option.some.inj hHead
      exact hTraffic.first_zero first rfl
    · intro hZero
      obtain rfl : first = .zero := hZero first rfl
      have hSelf : (samples rest).map (· - .zero) = samples rest := by simp
      rw [hSelf]
      exact trafficSinceFirst_self (List.pairwise_cons.mpr hMono)

theorem reports_iff_first_zero_of_two :
    ∃ s, step.run (new true) [.open 1, .execute .zero, .close, .execute ⟨3, 1, 0, 0⟩] = some s ∧
      (TrafficSinceFirst (samples [.open 1, .execute .zero, .close, .execute ⟨3, 1, 0, 0⟩])
          s.reports ↔
        ∀ first, (samples [.open 1, .execute .zero, .close, .execute ⟨3, 1, 0, 0⟩]).head? =
          some first → first = .zero) := by
  apply reports_iff_first_zero
  have hLe : NetModel.zero ≤ ⟨3, 1, 0, 0⟩ := by
    intro c
    cases c <;> decide
  simp [hLe]

/-- The first report carries the sample. -/
theorem first_report_not_zero :
    ¬ ∃ s, step.run (new true) [.execute ⟨5, 0, 0, 0⟩] = some s ∧
      TrafficSinceFirst (samples [.execute ⟨5, 0, 0, 0⟩]) s.reports := by
  rintro ⟨s, hRun, hTraffic⟩
  obtain rfl := Option.some.inj hRun
  have hFirst := hTraffic.first_zero ⟨5, 0, 0, 0⟩ rfl
  revert hFirst
  decide

end NetworkFlow

end LeigodAPM
