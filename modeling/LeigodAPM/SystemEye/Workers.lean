import LeigodAPM.SystemEye.NetworkFlow
import Mathlib.Data.List.Count
import Mathlib.Data.List.Nodup

/-!
# The worker threads of a `NetworkFlow`

One controlling thread calls `open` and `close`; their statements interleave with the
steps of all worker threads that were ever started. A worker loops through testing
`isCancelled`, executing and sleeping, so a worker that is cancelled after its test still
executes once.

The order of the statements is what keeps the workers apart: `ending` runs a list of
statements on the one fact that matters, whether all workers are cancelled, and finds that
`open` and `close` cancel the current worker before they forget it or replace it.

* `always_workersBounded`: in every interleaving at most one worker is not cancelled, it
  is the stored one, no worker is left after `close`, and cancelled workers execute once
  at most.
-/

namespace LeigodAPM

open Foundation Machine

namespace NetworkFlow

/-- A call of the controlling thread. -/
inductive ControlCall
  | open (timeInterval : ℚ)
  | close
  deriving DecidableEq

def ControlCall.body : ControlCall → List Stmt
  | .open t => openBody t
  | .close => closeBody

/-- An `execute` of a worker: whether the worker was cancelled at the time, and whether
the delegate was called. -/
structure Execution where
  worker : ℕ
  stale : Bool
  reported : Bool

/-- The object with its threads, the statements that the controlling thread has still to
execute in its current call, and the executions so far. -/
structure Workers where
  flow : NetworkFlow
  todo : List Stmt
  executions : List Execution

inductive WorkerEvent
  | call (c : ControlCall)
  | control
  | worker (i : ℕ) (sample : NetModel)

namespace Workers

def start (delegate : Bool) : Workers := ⟨.new delegate, [], []⟩

/-- Worker `i` goes on at `pc`. -/
def goto (w : Workers) (i : ℕ) (pc : EyePc) : Workers :=
  { w with
    flow := { w.flow with threads := w.flow.threads.modify i fun th => { th with pc := pc } } }

/-- Worker `i` has executed, which left the object as `flow`. -/
def executed (w : Workers) (i : ℕ) (th : EyeThread) (flow : NetworkFlow) : Workers :=
  { w with
    flow := flow
    executions := w.executions ++ [⟨i, th.isCancelled, w.flow.delegate⟩] }

/-- One step of worker `i` through the loop of `eyeThreadHandler`. Sleeping reads the
implicitly unwrapped `timeInterval`. -/
def stepWorker (w : Workers) (i : ℕ) (sample : NetModel) (th : EyeThread) : Option Workers :=
  if th.started = true then
    match th.pc with
    | .test => some (w.goto i (if th.isCancelled = true then .exited else .execute))
    | .execute => (w.flow.execute sample).map fun flow => (w.executed i th flow).goto i .sleep
    | .sleep => if w.flow.timeInterval.isSome then some (w.goto i .test) else none
    | .exited => none
  else none

/-- All interleavings; `none` where the step is not possible or stops the program. -/
def step : Machine Workers WorkerEvent
  | w, .call c => if w.todo.isEmpty then some { w with todo := c.body } else none
  | w, .control =>
    match w.todo with
    | [] => none
    | c :: rest => some { w with flow := w.flow.exec c, todo := rest }
  | w, .worker i sample => w.flow.threads[i]?.bind (w.stepWorker i sample)

/-! ## Bounds on the workers -/

/-- No worker would pass its next test. -/
def AllCancelled (s : NetworkFlow) : Prop := ∀ th ∈ s.threads, th.isCancelled = true

/-- A worker that is not cancelled is the stored one. -/
def Stored (s : NetworkFlow) : Prop :=
  ∀ (i : ℕ) (th : EyeThread), s.threads[i]? = some th → th.isCancelled = false →
    s.eyeThread = some i

/-- How often worker `i` has executed after it was cancelled. -/
def staleCount (w : Workers) (i : ℕ) : ℕ :=
  w.executions.countP fun x => x.worker = i ∧ x.stale = true

/-- `close` has been called, and `open` not since then. -/
def Closed (h : List WorkerEvent) : Prop :=
  Since (fun e => e = .call .close) (fun e => ∃ t, e = .call (.open t)) h

/-- The workers do not pile up. -/
structure WorkersBounded (h : List WorkerEvent) (w : Workers) : Prop where
  at_most_one : ∀ (i j : ℕ) (th th' : EyeThread), w.flow.threads[i]? = some th →
    w.flow.threads[j]? = some th' → th.isCancelled = false → th'.isCancelled = false → i = j
  stored : Stored w.flow
  closed : Closed h → w.todo = [] → AllCancelled w.flow
  once : ∀ (i : ℕ) (th : EyeThread), w.flow.threads[i]? = some th → th.isCancelled = true →
    w.staleCount i ≤ 1
  stale_reports : w.executions.countP (fun x => x.stale ∧ x.reported) ≤
    w.flow.threads.countP (·.isCancelled)

/-! ## The statements of a call -/

@[simp] theorem onThread_eyeThread (s : NetworkFlow) (f : EyeThread → EyeThread) :
    (s.onThread f).eyeThread = s.eyeThread := by
  unfold onThread
  split <;> rfl

theorem onThread_getElem? {s : NetworkFlow} {f : EyeThread → EyeThread} {i : ℕ} {th' : EyeThread}
    (h : (s.onThread f).threads[i]? = some th') :
    ∃ th, s.threads[i]? = some th ∧ th' = if s.eyeThread = some i then f th else th := by
  unfold onThread at h
  cases hEye : s.eyeThread with
  | none =>
    rw [hEye] at h
    exact ⟨th', h, by simp⟩
  | some j =>
    simp only [hEye, List.getElem?_modify] at h
    obtain ⟨th, hth, rfl⟩ := Option.map_eq_some_iff.mp h
    refine ⟨th, hth, ?_⟩
    simp only [Option.some.injEq]

theorem onThread_unmoved {s : NetworkFlow} {f : EyeThread → EyeThread}
    (hPc : ∀ th : EyeThread, (f th).pc = th.pc)
    (hCancel : ∀ th : EyeThread, th.isCancelled = true → (f th).isCancelled = true)
    {i : ℕ} {th' : EyeThread} (h : (s.onThread f).threads[i]? = some th') :
    ∃ th, s.threads[i]? = some th ∧ th'.pc = th.pc ∧
      (th.isCancelled = true → th'.isCancelled = true) := by
  obtain ⟨th, hth, rfl⟩ := onThread_getElem? h
  refine ⟨th, hth, ?_⟩
  split
  · exact ⟨hPc th, hCancel th⟩
  · exact ⟨rfl, id⟩

/-- What a statement does to one thread: it was there, at the same place and not cancelled
more than now, or it is new. -/
theorem exec_getElem? {s : NetworkFlow} {c : Stmt} {i : ℕ} {th' : EyeThread}
    (h : (s.exec c).threads[i]? = some th') :
    (∃ th, s.threads[i]? = some th ∧ th'.pc = th.pc ∧
      (th.isCancelled = true → th'.isCancelled = true)) ∨
    (i = s.threads.length ∧ th'.isCancelled = false ∧ th'.pc = .test) := by
  cases c with
  | setTimeInterval t => exact Or.inl ⟨th', h, rfl, id⟩
  | clearThread => exact Or.inl ⟨th', h, rfl, id⟩
  | cancelThread =>
    exact Or.inl (onThread_unmoved (f := fun th => { th with isCancelled := true })
      (fun _ => rfl) (fun _ _ => rfl) h)
  | nameThread =>
    exact Or.inl (onThread_unmoved (f := fun th => { th with name := some "SystemEye_Net" })
      (fun _ => rfl) (fun _ => id) h)
  | startThread =>
    exact Or.inl (onThread_unmoved (f := fun th => { th with started := true })
      (fun _ => rfl) (fun _ => id) h)
  | newThread =>
    have hNew : (s.threads ++ [⟨none, false, false, .test⟩])[i]? = some th' := h
    rcases Nat.lt_or_ge i s.threads.length with hLt | hGe
    · rw [List.getElem?_append_left hLt] at hNew
      exact Or.inl ⟨th', hNew, rfl, id⟩
    · rw [List.getElem?_append_right hGe, List.getElem?_singleton] at hNew
      split at hNew
      · obtain rfl := Option.some.inj hNew
        exact Or.inr ⟨by omega, rfl, rfl⟩
      · cases hNew

theorem length_exec (s : NetworkFlow) (c : Stmt) :
    s.threads.length ≤ (s.exec c).threads.length := by
  cases c <;> simp [exec, onThread] <;> split <;> simp

/-! ## Cancelling before forgetting -/

/-- Run statements on the knowledge that all workers are cancelled (`true`) or on none
(`false`); `none` when a worker that may be running would be forgotten or replaced. -/
def ending : Bool → List Stmt → Option Bool
  | p, [] => some p
  | _, .cancelThread :: rest => ending true rest
  | p, .clearThread :: rest => if p then ending p rest else none
  | p, .newThread :: rest => if p then ending false rest else none
  | p, .setTimeInterval _ :: rest => ending p rest
  | p, .nameThread :: rest => ending p rest
  | p, .startThread :: rest => ending p rest

/-- A call may begin in any state, and after `close` all workers are cancelled. -/
theorem ending_body (p : Bool) (c : ControlCall) :
    ∃ q, ending p c.body = some q ∧ (c = .close → q = true) := by
  cases c with
  | «open» t => exact ⟨false, rfl, by simp⟩
  | close => exact ⟨true, rfl, fun _ => rfl⟩

/-- A step that changes neither the stored worker nor any flag. -/
theorem keeps_of_flags {s s' : NetworkFlow} (hEye : s'.eyeThread = s.eyeThread)
    (hFlag : ∀ (i : ℕ) (th' : EyeThread), s'.threads[i]? = some th' →
      ∃ th : EyeThread, s.threads[i]? = some th ∧ th'.isCancelled = th.isCancelled)
    (hStored : Stored s) {p : Bool} (hp : p = true → AllCancelled s) :
    Stored s' ∧ (p = true → AllCancelled s') := by
  constructor
  · intro i th' h hNot
    obtain ⟨th, hth, hEq⟩ := hFlag i th' h
    rw [hEye]
    exact hStored i th hth (hEq.symm.trans hNot)
  · intro hTrue th' hMem
    obtain ⟨i, h⟩ := List.mem_iff_getElem?.mp hMem
    obtain ⟨th, hth, hEq⟩ := hFlag i th' h
    exact hEq.trans (hp hTrue th (List.mem_of_getElem? hth))

theorem onThread_flag {s : NetworkFlow} {f : EyeThread → EyeThread}
    (hf : ∀ th : EyeThread, (f th).isCancelled = th.isCancelled) (i : ℕ) (th' : EyeThread)
    (h : (s.onThread f).threads[i]? = some th') :
    ∃ th : EyeThread, s.threads[i]? = some th ∧ th'.isCancelled = th.isCancelled := by
  obtain ⟨th, hth, rfl⟩ := onThread_getElem? h
  refine ⟨th, hth, ?_⟩
  split
  · exact hf th
  · rfl

/-- Cancelling the stored worker cancels all of them. -/
theorem cancelThread_allCancelled {s : NetworkFlow} (hStored : Stored s) :
    AllCancelled (s.exec .cancelThread) := by
  intro th' hMem
  obtain ⟨i, h⟩ := List.mem_iff_getElem?.mp hMem
  obtain ⟨th, hth, rfl⟩ := onThread_getElem? h
  by_cases hEye : s.eyeThread = some i
  · rw [if_pos hEye]
  · rw [if_neg hEye]
    by_contra hNot
    exact hEye (hStored i th hth (by simpa using hNot))

theorem stored_of_allCancelled {s : NetworkFlow} (hAll : AllCancelled s) : Stored s := by
  intro i th hth hNot
  rw [hAll th (List.mem_of_getElem? hth)] at hNot
  cases hNot

theorem newThread_stored {s : NetworkFlow} (hAll : AllCancelled s) :
    Stored (s.exec .newThread) := by
  intro i th h hNot
  rcases exec_getElem? h with ⟨th₀, hth₀, -, hCancel⟩ | ⟨rfl, -, -⟩
  · rw [hCancel (hAll th₀ (List.mem_of_getElem? hth₀))] at hNot
    cases hNot
  · rfl

/-- One statement of a call. -/
theorem exec_stored {s : NetworkFlow} {c : Stmt} {rest : List Stmt} {p q : Bool}
    (hStored : Stored s) (hp : p = true → AllCancelled s)
    (hEnd : ending p (c :: rest) = some q) :
    ∃ p', Stored (s.exec c) ∧ (p' = true → AllCancelled (s.exec c)) ∧
      ending p' rest = some q := by
  cases c with
  | cancelThread =>
    have hAll := cancelThread_allCancelled hStored
    exact ⟨true, stored_of_allCancelled hAll, fun _ => hAll, hEnd⟩
  | clearThread =>
    simp only [ending, Option.ite_none_right_eq_some] at hEnd
    have hAll : AllCancelled (s.exec .clearThread) := hp hEnd.1
    exact ⟨p, stored_of_allCancelled hAll, fun _ => hAll, hEnd.2⟩
  | newThread =>
    simp only [ending, Option.ite_none_right_eq_some] at hEnd
    exact ⟨false, newThread_stored (hp hEnd.1), nofun, hEnd.2⟩
  | setTimeInterval t => exact ⟨p, hStored, hp, hEnd⟩
  | nameThread =>
    have hFlag := onThread_flag (s := s) (f := fun th => { th with name := some "SystemEye_Net" })
      fun _ => rfl
    obtain ⟨h1, h2⟩ := keeps_of_flags (onThread_eyeThread s _) hFlag hStored hp
    exact ⟨p, h1, h2, hEnd⟩
  | startThread =>
    have hFlag := onThread_flag (s := s) (f := fun th => { th with started := true })
      fun _ => rfl
    obtain ⟨h1, h2⟩ := keeps_of_flags (onThread_eyeThread s _) hFlag hStored hp
    exact ⟨p, h1, h2, hEnd⟩

/-! ## Executions after the cancellation -/

/-- The executions that a worker has still to make once it is cancelled. -/
def owed (th : EyeThread) : ℕ := if th.isCancelled = true ∧ th.pc = .execute then 1 else 0

/-- Each worker spends at most one execution after its cancellation: none before it, and
then the one that its last test allowed. -/
structure Budget (w : Workers) : Prop where
  spent : ∀ (i : ℕ) (th : EyeThread), w.flow.threads[i]? = some th →
    w.staleCount i + owed th ≤ th.isCancelled.toNat
  created : ∀ i, w.flow.threads.length ≤ i → w.staleCount i = 0

@[simp] theorem staleCount_goto (w : Workers) (i j : ℕ) (pc : EyePc) :
    (w.goto i pc).staleCount j = w.staleCount j := rfl

theorem staleCount_executed (w : Workers) (i j : ℕ) (th : EyeThread) (flow : NetworkFlow) :
    (w.executed i th flow).staleCount j =
      w.staleCount j + if i = j then th.isCancelled.toNat else 0 := by
  simp only [staleCount, executed, List.countP_append, List.countP_singleton]
  cases th.isCancelled <;> simp

/-- A statement of the controlling thread may cancel a worker, which grants it one
execution, but never moves one. -/
theorem Budget.exec {w : Workers} (hBudget : Budget w) (c : Stmt) (todo : List Stmt) :
    Budget { w with flow := w.flow.exec c, todo := todo } := by
  constructor
  · intro i th' h
    rcases exec_getElem? h with ⟨th, hth, hPc, hCancel⟩ | ⟨rfl, hNot, hPc⟩
    · have hSpent : w.staleCount i + owed th ≤ th.isCancelled.toNat := hBudget.spent i th hth
      show w.staleCount i + owed th' ≤ th'.isCancelled.toNat
      cases hOld : th.isCancelled with
      | true =>
        have hEq : owed th' = owed th := by simp [owed, hPc, hOld, hCancel hOld]
        rw [hEq, hCancel hOld]
        rwa [hOld] at hSpent
      | false =>
        rw [hOld] at hSpent
        have hOwed : owed th' ≤ th'.isCancelled.toNat := by
          unfold owed
          cases th'.isCancelled <;> simp
          split <;> omega
        have hZero : w.staleCount i + owed th ≤ 0 := hSpent
        omega
    · have hZero : w.staleCount w.flow.threads.length = 0 :=
        hBudget.created w.flow.threads.length le_rfl
      show w.staleCount w.flow.threads.length + owed th' ≤ th'.isCancelled.toNat
      simp [hZero, owed, hNot]
  · intro i hi
    exact hBudget.created i ((length_exec w.flow c).trans hi)

theorem goto_getElem? {w : Workers} {i j : ℕ} {pc : EyePc} {th' : EyeThread}
    (h : (w.goto i pc).flow.threads[j]? = some th') :
    ∃ th, w.flow.threads[j]? = some th ∧ th'.isCancelled = th.isCancelled ∧
      th' = if i = j then { th with pc := pc } else th := by
  simp only [goto, List.getElem?_modify] at h
  obtain ⟨th, hth, rfl⟩ := Option.map_eq_some_iff.mp h
  refine ⟨th, hth, ?_, rfl⟩
  split <;> rfl

/-- A worker moves without executing. -/
theorem Budget.goto {w : Workers} (hBudget : Budget w) {i : ℕ} {th : EyeThread} {pc : EyePc}
    (hth : w.flow.threads[i]? = some th)
    (hPc : pc = .execute → th.isCancelled = false) : Budget (w.goto i pc) := by
  constructor
  · intro j th' h
    obtain ⟨th₀, hth₀, hCancel, rfl⟩ := goto_getElem? h
    have hSpent := hBudget.spent j th₀ hth₀
    show w.staleCount j + _ ≤ _
    rw [hCancel]
    by_cases hij : i = j
    · subst hij
      obtain rfl : th = th₀ := Option.some.inj (hth.symm.trans hth₀)
      rw [if_pos rfl]
      have hNone : owed { th with pc := pc } = 0 := by
        apply if_neg
        rintro ⟨hTrue, hAt⟩
        rw [hPc hAt] at hTrue
        cases hTrue
      omega
    · rw [if_neg hij]
      exact hSpent
  · intro j hj
    exact hBudget.created j (by simpa [Workers.goto] using hj)

theorem report_threads (s : NetworkFlow) (m : NetModel) :
    (s.report m).threads = s.threads ∧ (s.report m).eyeThread = s.eyeThread := by
  unfold report
  split <;> exact ⟨rfl, rfl⟩

theorem execute_threads {s s' : NetworkFlow} {sample : NetModel}
    (h : s.execute sample = some s') : s'.threads = s.threads ∧ s'.eyeThread = s.eyeThread := by
  unfold execute at h
  cases hFirst : s.first_model with
  | none =>
    rw [hFirst] at h
    obtain rfl := Option.some.inj h
    exact report_threads _ sample
  | some first =>
    rw [hFirst] at h
    obtain ⟨d, -, rfl⟩ := Option.map_eq_some_iff.mp h
    exact report_threads s d

/-- An execution spends what the worker owes. -/
theorem Budget.executed {w : Workers} (hBudget : Budget w) {i : ℕ} {th : EyeThread}
    (hth : w.flow.threads[i]? = some th) (hPc : th.pc = .execute) {flow : NetworkFlow}
    (hFlow : flow.threads = w.flow.threads) : Budget ((w.executed i th flow).goto i .sleep) := by
  constructor
  · intro j th' h
    obtain ⟨th₀, hth₀, hCancel, rfl⟩ := goto_getElem? h
    have hOld : w.flow.threads[j]? = some th₀ := by
      rw [← hFlow]
      exact hth₀
    have hSpent := hBudget.spent j th₀ hOld
    rw [hCancel, staleCount_goto, staleCount_executed]
    by_cases hij : i = j
    · subst hij
      obtain rfl : th = th₀ := Option.some.inj (hth.symm.trans hOld)
      have hOwed : owed th = th.isCancelled.toNat := by
        simp only [owed, hPc, and_true]
        cases th.isCancelled <;> rfl
      have hNone : owed { th with pc := EyePc.sleep } = 0 := if_neg (by simp)
      rw [if_pos rfl, if_pos rfl]
      omega
    · rw [if_neg hij, if_neg hij]
      exact hSpent
  · intro j hj
    have hOld : w.flow.threads.length ≤ j := by
      simpa [Workers.goto, Workers.executed, hFlow] using hj
    have hNe : i ≠ j := by
      have hi := (List.getElem?_eq_some_iff.mp hth).1
      omega
    rw [staleCount_goto, staleCount_executed, if_neg hNe, hBudget.created j hOld]

/-- The workers of the executions after a cancellation are different cancelled workers. -/
theorem Budget.stale_le {w : Workers} (hBudget : Budget w) :
    w.executions.countP (·.stale) ≤ w.flow.threads.countP (·.isCancelled) := by
  let stale : List ℕ := (w.executions.filter (·.stale)).map (·.worker)
  let cancelled : List ℕ := (w.flow.threads.zipIdx.filter (·.1.isCancelled)).map (·.2)
  have hCount : ∀ i, stale.count i = w.staleCount i := by
    intro i
    simp only [stale, List.count, List.countP_map, List.countP_filter, staleCount]
    congr 1
    funext x
    simp [beq_eq_decide]
  have hNodup : stale.Nodup := by
    rw [List.nodup_iff_count_le_one]
    intro i
    rw [hCount]
    cases hth : w.flow.threads[i]? with
    | none =>
      rw [hBudget.created i (List.getElem?_eq_none_iff.mp hth)]
      omega
    | some th =>
      have hSpent := hBudget.spent i th hth
      have hOne := th.isCancelled.toNat_le
      omega
  have hSubset : stale ⊆ cancelled := by
    intro i hi
    have hPos : 0 < w.staleCount i := by
      rw [← hCount]
      exact List.count_pos_iff.mpr hi
    cases hth : w.flow.threads[i]? with
    | none =>
      have hZero := hBudget.created i (List.getElem?_eq_none_iff.mp hth)
      omega
    | some th =>
      have hSpent := hBudget.spent i th hth
      have hCancel : th.isCancelled = true := by
        cases hFlag : th.isCancelled with
        | true => rfl
        | false =>
          rw [hFlag, Bool.toNat_false] at hSpent
          omega
      refine List.mem_map.mpr ⟨(th, i), ?_, rfl⟩
      exact List.mem_filter.mpr ⟨List.mk_mem_zipIdx_iff_getElem?.mpr hth, hCancel⟩
  calc w.executions.countP (·.stale)
      = stale.length := by rw [List.length_map, List.countP_eq_length_filter]
    _ ≤ cancelled.length := (List.subperm_of_subset hNodup hSubset).length_le
    _ = w.flow.threads.countP (·.isCancelled) := by
      rw [List.length_map, ← List.countP_eq_length_filter, ← List.zipIdx_map_fst 0 w.flow.threads,
        List.countP_map]
      simp [Function.comp_def]

/-! ## The reports of the executions -/

/-- An execution calls the delegate once, if there is one. -/
theorem execute_length_reports {s s' : NetworkFlow} {sample : NetModel}
    (h : s.execute sample = some s') :
    s'.reports.length = s.reports.length + s.delegate.toNat := by
  have hReport (s : NetworkFlow) (m : NetModel) :
      (s.report m).reports.length = s.reports.length + s.delegate.toNat := by
    cases hDelegate : s.delegate <;> simp [report, hDelegate]
  unfold execute at h
  cases hFirst : s.first_model with
  | none =>
    rw [hFirst] at h
    obtain rfl := Option.some.inj h
    exact hReport _ sample
  | some first =>
    rw [hFirst] at h
    obtain ⟨d, -, rfl⟩ := Option.map_eq_some_iff.mp h
    exact hReport s d

/-- **Reports.** The delegate has one report of each execution that is marked as reported. -/
theorem always_length_reports (delegate : Bool) (es : List WorkerEvent) :
    step.Always (fun _ w => w.flow.reports.length = w.executions.countP (·.reported))
      (start delegate) es := by
  refine always_of_step rfl fun h w e w' hReports hStep => ?_
  cases e with
  | call c =>
    obtain ⟨-, hw'⟩ := Option.ite_none_right_eq_some.mp hStep
    obtain rfl := Option.some.inj hw'
    exact hReports
  | control =>
    cases hTodo : w.todo with
    | nil => simp [Workers.step, hTodo] at hStep
    | cons c rest =>
      simp only [Workers.step, hTodo] at hStep
      obtain rfl := Option.some.inj hStep
      obtain ⟨-, -, hSame⟩ := exec_agrees w.flow c
      exact (congrArg List.length hSame).trans hReports
  | worker i sample =>
    obtain ⟨th, -, hWorker⟩ := Option.bind_eq_some_iff.mp hStep
    obtain ⟨-, hLoop⟩ := Option.ite_none_right_eq_some.mp hWorker
    cases hPc : th.pc with
    | test =>
      simp only [hPc] at hLoop
      obtain rfl := Option.some.inj hLoop
      exact hReports
    | execute =>
      simp only [hPc] at hLoop
      obtain ⟨flow, hFlow, rfl⟩ := Option.map_eq_some_iff.mp hLoop
      have hLength := execute_length_reports hFlow
      have hCount : ((w.executed i th flow).goto i .sleep).executions.countP (·.reported) =
          w.executions.countP (·.reported) + w.flow.delegate.toNat := by
        simp only [goto, executed, List.countP_append, List.countP_singleton]
        cases w.flow.delegate <;> rfl
      rw [hCount, ← hReports]
      exact hLength
    | sleep =>
      simp only [hPc] at hLoop
      obtain ⟨-, hw'⟩ := Option.ite_none_right_eq_some.mp hLoop
      obtain rfl := Option.some.inj hw'
      exact hReports
    | exited => simp [hPc] at hLoop

/-! ## Every interleaving -/

/-- What holds at every state; `phase` says that the statements still to execute are run
to their end from what is known now. -/
structure Invariant (h : List WorkerEvent) (w : Workers) : Prop where
  stored : Stored w.flow
  phase : ∃ p q, (p = true → AllCancelled w.flow) ∧ ending p w.todo = some q ∧
    (Closed h → q = true)
  budget : Budget w

theorem Invariant.workersBounded {h : List WorkerEvent} {w : Workers} (hInv : Invariant h w) :
    WorkersBounded h w := by
  constructor
  · intro i j th th' hi hj hth hth'
    have hEq := (hInv.stored i th hi hth).symm.trans (hInv.stored j th' hj hth')
    exact Option.some.inj hEq
  · exact hInv.stored
  · intro hClosed hTodo
    obtain ⟨p, q, hp, hEnd, hq⟩ := hInv.phase
    rw [hTodo] at hEnd
    obtain rfl : p = q := Option.some.inj hEnd
    exact hp (hq hClosed)
  · intro i th hth hCancel
    have hSpent := hInv.budget.spent i th hth
    rw [hCancel, Bool.toNat_true] at hSpent
    omega
  · refine le_trans (List.countP_mono_left ?_) hInv.budget.stale_le
    intro x _ hx
    exact (of_decide_eq_true hx).1

/-- A step of a worker changes no flag and does not touch the statements of the controlling
thread. -/
theorem Invariant.worker {h : List WorkerEvent} {w w' : Workers} {i : ℕ} {sample : NetModel}
    (hInv : Invariant h w) (hTodo : w'.todo = w.todo)
    (hEye : w'.flow.eyeThread = w.flow.eyeThread)
    (hFlag : ∀ (j : ℕ) (th' : EyeThread), w'.flow.threads[j]? = some th' →
      ∃ th : EyeThread, w.flow.threads[j]? = some th ∧ th'.isCancelled = th.isCancelled)
    (hBudget : Budget w') : Invariant (h ++ [.worker i sample]) w' := by
  obtain ⟨p, q, hp, hEnd, hq⟩ := hInv.phase
  obtain ⟨hStored, hp'⟩ := keeps_of_flags hEye hFlag hInv.stored hp
  refine ⟨hStored, ⟨p, q, hp', by rw [hTodo]; exact hEnd, fun hClosed => hq ?_⟩, hBudget⟩
  rcases since_concat.mp hClosed with hCall | ⟨hClosed, -⟩
  · cases hCall
  · exact hClosed

theorem Invariant.step {h : List WorkerEvent} {w w' : Workers} {e : WorkerEvent}
    (hInv : Invariant h w) (hStep : step w e = some w') : Invariant (h ++ [e]) w' := by
  cases e with
  | call c =>
    obtain ⟨-, hw'⟩ := Option.ite_none_right_eq_some.mp hStep
    obtain rfl := Option.some.inj hw'
    obtain ⟨q, hEnd, hq⟩ := ending_body false c
    refine ⟨hInv.stored, ⟨false, q, nofun, hEnd, fun hClosed => hq ?_⟩,
      hInv.budget.spent, hInv.budget.created⟩
    rcases since_concat.mp hClosed with hCall | ⟨-, hNotOpen⟩
    · exact WorkerEvent.call.inj hCall
    · cases c with
      | «open» t => exact absurd ⟨t, rfl⟩ hNotOpen
      | close => rfl
  | control =>
    obtain ⟨p, q, hp, hEnd, hq⟩ := hInv.phase
    cases hTodo : w.todo with
    | nil =>
      simp [Workers.step, hTodo] at hStep
    | cons c rest =>
      simp only [Workers.step, hTodo] at hStep
      obtain rfl := Option.some.inj hStep
      rw [hTodo] at hEnd
      obtain ⟨p', hStored, hp', hEnd'⟩ := exec_stored hInv.stored hp hEnd
      refine ⟨hStored, ⟨p', q, hp', hEnd', fun hClosed => hq ?_⟩, hInv.budget.exec c rest⟩
      rcases since_concat.mp hClosed with hCall | ⟨hClosed, -⟩
      · cases hCall
      · exact hClosed
  | worker i sample =>
    obtain ⟨th, hth, hWorker⟩ := Option.bind_eq_some_iff.mp hStep
    obtain ⟨-, hLoop⟩ := Option.ite_none_right_eq_some.mp hWorker
    have hGoto : ∀ pc, (pc = .execute → th.isCancelled = false) →
        Invariant (h ++ [.worker i sample]) (w.goto i pc) := by
      intro pc hPc
      refine hInv.worker rfl rfl ?_ (hInv.budget.goto hth hPc)
      intro j th' hj
      obtain ⟨th₀, hth₀, hCancel, -⟩ := goto_getElem? hj
      exact ⟨th₀, hth₀, hCancel⟩
    cases hPc : th.pc with
    | test =>
      simp only [hPc] at hLoop
      obtain rfl := Option.some.inj hLoop
      apply hGoto
      cases th.isCancelled <;> simp
    | execute =>
      simp only [hPc] at hLoop
      obtain ⟨flow, hFlow, rfl⟩ := Option.map_eq_some_iff.mp hLoop
      obtain ⟨hThreads, hEye⟩ := execute_threads hFlow
      refine hInv.worker rfl hEye ?_ (hInv.budget.executed hth hPc hThreads)
      intro j th' hj
      obtain ⟨th₀, hth₀, hCancel, -⟩ := goto_getElem? hj
      exact ⟨th₀, hThreads ▸ hth₀, hCancel⟩
    | sleep =>
      simp only [hPc] at hLoop
      obtain ⟨-, hw'⟩ := Option.ite_none_right_eq_some.mp hLoop
      obtain rfl := Option.some.inj hw'
      exact hGoto .test nofun
    | exited =>
      simp [hPc] at hLoop

/-- **Workers.** However the statements of the calls interleave with the steps of the
workers, the workers do not pile up. -/
theorem always_workersBounded (delegate : Bool) (es : List WorkerEvent) :
    step.Always WorkersBounded (start delegate) es := by
  have hStart : Invariant [] (start delegate) := by
    refine ⟨?_, ⟨false, false, nofun, rfl, ?_⟩, ?_, ?_⟩
    · intro i th h
      simp [start, new] at h
    · intro hClosed
      exact absurd hClosed not_since_nil
    · intro i th h
      simp [start, new] at h
    · intro i _
      rfl
  refine (always_of_step hStart ?_).mono fun h w hInv => hInv.workersBounded
  intro h w e w' hInv hStep
  exact hInv.step hStep

end Workers

end NetworkFlow

end LeigodAPM
