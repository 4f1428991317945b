import LeigodAPM.CrashEye.Crash

/-!
# Chains of exception handlers

Other components may install exception handlers of their own, following the discipline of
`CrashEye`: save the current handler and set their own, set the saved one back, and call
the saved one on an exception. `Host` adds such components to the process, and `hooks`
reads it as a slot of `Foundation.Hooks`, of which every event is one operation
(`step_hooks`).

When a component restores a handler whose owner has been uninstalled in the meantime, the
owner can find its own handler in the slot on the next installation, and save it.
`chaining_iff` shows that this is the only way in which a chain becomes endless.
-/

namespace LeigodAPM

open Foundation

/-- A process with `CrashEye` and other components `F`, each with the handler it saved and
whether it counts itself as installed. -/
structure Host (F Obj : Type*) where
  app : CrashEye F Obj
  saved : F → Option (ExceptionHandler F)
  installed : F → Bool

inductive HostEvent (F Obj : Type*)
  | crashEye (op : RegistryOp Obj)
  | install (f : F)
  | uninstall (f : F)

/-- The handler an event installs, unless its owner is installed already. -/
def HostEvent.installs {F Obj : Type*} : HostEvent F Obj → Option (ExceptionHandler F)
  | .crashEye (.add _) => some .recieveException
  | .install f => some (.foreign f)
  | _ => none

namespace Host

variable {F Obj : Type*}

/-- No component has installed anything; whose handler is there is left open. -/
def launched (handler : Option F) (disposition : Int32 → Disposition F) : Host F Obj where
  app := .launched handler disposition
  saved _ := none
  installed _ := false

/-- The process as a slot for hooks that save and restore their predecessor. -/
def hooks (s : Host F Obj) : Hooks (ExceptionHandler F) where
  current := s.app.uncaughtExceptionHandler
  saved := s.app.oldHandler s.saved
  installed
    | .recieveException => s.app.isOpen
    | .foreign f => s.installed f

section Step

variable [DecidableEq F]

/-- An uncaught exception is delivered in finitely many calls and enters the handler of
`CrashEye` once at most; the handler that `CrashEye` saved does not lead back to it. -/
def ChainingTerminates (s : Host F Obj) : Prop :=
  (∀ ctx exception, ∃ fuel c,
    CrashEye.uncaughtException s.saved ctx exception fuel (.begin s.app) = some c ∧
      c.entered.count .recieveException ≤ 1) ∧
  ∀ old, s.app.app_old_exceptionHandler = some old →
    ¬ Chain.Leads (s.app.oldHandler s.saved) old .recieveException

def install (s : Host F Obj) (f : F) : Host F Obj :=
  if s.installed f = false then
    { app := { s.app with uncaughtExceptionHandler := some (.foreign f) }
      saved := Function.update s.saved f s.app.uncaughtExceptionHandler
      installed := Function.update s.installed f true }
  else s

def uninstall (s : Host F Obj) (f : F) : Host F Obj :=
  if s.installed f = true then
    { s with
      app := { s.app with uncaughtExceptionHandler := s.saved f }
      installed := Function.update s.installed f false }
  else s

def step [DecidableEq Obj] [NSObjectProtocol Obj] : Machine (Host F Obj) (HostEvent F Obj)
  | s, .crashEye op => (CrashEye.step s.app op).map fun app => { s with app }
  | s, .install f => some (s.install f)
  | s, .uninstall f => some (s.uninstall f)

/-! ## Events as operations on the slot -/

theorem hooks_install (s : Host F Obj) (f : F) :
    (s.install f).hooks = s.hooks.install (.foreign f) := by
  cases hInst : s.installed f with
  | true => simp [install, Hooks.install, hooks, hInst]
  | false =>
    simp only [install, Hooks.install, hooks, hInst, if_true, Bool.false_eq_true, if_false,
      Hooks.mk.injEq, true_and]
    constructor
    · funext h
      cases h with
      | recieveException => rfl
      | foreign g => by_cases hg : g = f <;> simp [CrashEye.oldHandler, hg]
    · funext h
      cases h with
      | recieveException => rfl
      | foreign g => by_cases hg : g = f <;> simp [hg]

theorem hooks_uninstall (s : Host F Obj) (f : F) :
    (s.uninstall f).hooks = s.hooks.uninstall (.foreign f) := by
  cases hInst : s.installed f with
  | false => simp [uninstall, Hooks.uninstall, hooks, hInst]
  | true =>
    simp only [uninstall, Hooks.uninstall, hooks, hInst, if_true, Hooks.mk.injEq]
    refine ⟨rfl, rfl, ?_⟩
    funext h
    cases h with
    | recieveException => rfl
    | foreign g => by_cases hg : g = f <;> simp [hg]

theorem hooks_open (s : Host F Obj) (ds : List (WeakCrashEyeDelegate Obj)) :
    hooks { s with app := CrashEye.open { s.app with delegates := ds } } =
      s.hooks.install .recieveException := by
  cases hOpen : s.app.isOpen with
  | true =>
    simp only [CrashEye.open, Hooks.install, hooks, hOpen, Bool.true_eq_false, if_true, if_false,
      Hooks.mk.injEq, true_and]
    exact ⟨CrashEye.oldHandler_congr rfl, trivial⟩
  | false =>
    simp only [CrashEye.open, Hooks.install, hooks, hOpen, if_true, Bool.false_eq_true, if_false,
      Hooks.mk.injEq]
    refine ⟨rfl, ?_, ?_⟩
    · funext h
      cases h with
      | recieveException => simp [CrashEye.oldHandler, CrashEye.setCrashSignalHandler,
          CrashEye.signal]
      | foreign g => simp [CrashEye.oldHandler]
    · funext h
      cases h with
      | recieveException => simp [CrashEye.setCrashSignalHandler, CrashEye.signal]
      | foreign g => simp

theorem hooks_close (s : Host F Obj) (ds : List (WeakCrashEyeDelegate Obj)) :
    hooks { s with app := CrashEye.close { s.app with delegates := ds } } =
      s.hooks.uninstall .recieveException := by
  cases hOpen : s.app.isOpen with
  | false =>
    simp only [CrashEye.close, Hooks.uninstall, hooks, hOpen, Bool.false_eq_true, if_false,
      Hooks.mk.injEq, true_and]
    exact ⟨CrashEye.oldHandler_congr rfl, trivial⟩
  | true =>
    simp only [CrashEye.close, Hooks.uninstall, hooks, hOpen, if_true, Hooks.mk.injEq]
    refine ⟨rfl, ?_, ?_⟩
    · funext h
      cases h <;> rfl
    · funext h
      cases h with
      | recieveException => simp
      | foreign g => simp

/-! ## Delivering an exception -/

/-- Finite chains deliver every exception. -/
theorem chainingTerminates_of_acyclic {s : Host F Obj} (hAcyclic : s.hooks.Acyclic) :
    s.ChainingTerminates := by
  refine ⟨fun ctx exception => ?_, fun old hOld hLeads => ?_⟩
  · cases hCurrent : s.app.uncaughtExceptionHandler with
    | none =>
      refine ⟨0, CrashEye.abort ctx (.begin s.app), ?_, ?_⟩
      · simp [CrashEye.uncaughtException, Crashing.begin, hCurrent]
      · simp [CrashEye.abort_entered, Crashing.begin]
    | some handler =>
      obtain ⟨fuel, l, hl⟩ := hAcyclic handler
      have hReturns : ∃ c, CrashEye.callHandler s.saved ctx exception fuel handler
          (.begin s.app) = some c := CrashEye.callHandler_of_follow hl
      obtain ⟨c, hc⟩ := hReturns
      refine ⟨fuel, CrashEye.abort ctx c, ?_, ?_⟩
      · simp [CrashEye.uncaughtException, Crashing.begin, hCurrent]
        exact ⟨c, hc, rfl⟩
      · obtain ⟨-, l', hl', hEnt⟩ := CrashEye.follow_of_callHandler hc
        rw [CrashEye.abort_entered, hEnt]
        simpa [Crashing.begin] using
          List.nodup_iff_count_le_one.mp (Chain.follow_nodup hl') .recieveException
  · exact Chain.not_ends_of_cycle hOld hLeads (hAcyclic .recieveException)

/-- An endless chain in the slot delivers nothing. -/
theorem not_chainingTerminates {s : Host F Obj} {p : ExceptionHandler F}
    (hCurrent : s.hooks.current = some p) (hEndless : ¬ Chain.Ends s.hooks.saved p) :
    ¬ s.ChainingTerminates := by
  rintro ⟨hDelivers, -⟩
  obtain ⟨fuel, c, hc, -⟩ := hDelivers CrashEye.simulatorContext ⟨"", none, []⟩
  have hInstalled : (Crashing.begin s.app).app.uncaughtExceptionHandler = some p := hCurrent
  simp only [CrashEye.uncaughtException, hInstalled] at hc
  obtain ⟨r, hr, -⟩ := Option.map_eq_some_iff.mp hc
  obtain ⟨-, l, hl, -⟩ := CrashEye.follow_of_callHandler hr
  exact hEndless ⟨fuel, l, hl⟩

/-! ## Runs -/

variable [DecidableEq Obj] [NSObjectProtocol Obj]

/-- Every event is one operation on the slot, and those that install are named by
`installs`. -/
theorem step_hooks {s s' : Host F Obj} {e : HostEvent F Obj} (hStep : step s e = some s') :
    (∃ p, e.installs = some p ∧ s'.hooks = s.hooks.install p) ∨
      (e.installs = none ∧ (s'.hooks = s.hooks ∨ ∃ p, s'.hooks = s.hooks.uninstall p)) := by
  cases e with
  | install f =>
    obtain rfl := Option.some.inj hStep
    exact Or.inl ⟨.foreign f, rfl, hooks_install s f⟩
  | uninstall f =>
    obtain rfl := Option.some.inj hStep
    exact Or.inr ⟨rfl, Or.inr ⟨.foreign f, hooks_uninstall s f⟩⟩
  | crashEye op =>
    obtain ⟨app, hApp, rfl⟩ := Option.map_eq_some_iff.mp hStep
    obtain ⟨d, rfl, -, rfl⟩ | ⟨d, rfl, -, rfl⟩ | ⟨d, rfl, -, rfl⟩ := CrashEye.step_cases hApp
    · refine Or.inl ⟨.recieveException, rfl, ?_⟩
      rw [CrashEye.add_eq]
      exact hooks_open s _
    · refine Or.inr ⟨rfl, ?_⟩
      rw [CrashEye.remove_eq]
      split
      · exact Or.inr ⟨.recieveException, hooks_close s _⟩
      · exact Or.inl rfl
    · exact Or.inr ⟨rfl, Or.inl rfl⟩

/-- **Chaining.** In every state of a run an uncaught exception is delivered in finitely
many calls, exactly when no event of the run installs a handler that is still on the chain
of the current one. -/
theorem chaining_iff (handler : Option F) (disposition : Int32 → Disposition F)
    (es : List (HostEvent F Obj)) :
    step.Always (fun _ s => s.ChainingTerminates) (launched handler disposition) es ↔
      step.EachStep (fun _ s e => ∀ p, e.installs = some p → s.hooks.installed p = false →
        ¬ s.hooks.OnChain p) (launched handler disposition) es := by
  refine Machine.always_iff_eachStep (I := fun _ s => s.hooks.Acyclic) ?_
    (fun _ _ => chainingTerminates_of_acyclic) ?_ ?_
  · intro h
    apply Chain.ends_of_none
    cases h <;> rfl
  · intro _ s e s' hAcyclic hFree hStep
    obtain ⟨p, hp, hHooks⟩ | ⟨-, hHooks | ⟨p, hHooks⟩⟩ := step_hooks hStep
    · rw [hHooks]
      exact Hooks.install_acyclic hAcyclic (hFree p hp)
    · rw [hHooks]
      exact hAcyclic
    · rw [hHooks]
      exact Hooks.uninstall_acyclic hAcyclic p
  · intro _ s e s' _ hBad hStep
    obtain ⟨p, hBad⟩ := not_forall.mp hBad
    obtain ⟨hp, hBad⟩ := Classical.not_imp.mp hBad
    obtain ⟨hInst, hOn⟩ := Classical.not_imp.mp hBad
    obtain ⟨p', hp', hHooks⟩ | ⟨hNone, -⟩ := step_hooks hStep
    · obtain rfl : p = p' := Option.some.inj (hp.symm.trans hp')
      obtain ⟨hCurrent, hEndless⟩ := Hooks.install_cyclic hInst (not_not.mp hOn)
      rw [← hHooks] at hCurrent hEndless
      exact not_chainingTerminates hCurrent hEndless
    · rw [hp] at hNone
      cases hNone

end Step

/-- `CrashEye` opens, component `0` installs its handler, `CrashEye` closes, component `0`
uninstalls and so restores the handler of `CrashEye`, which on reopening saves itself. -/
theorem reopened_saves_itself :
    ¬ step.Always (fun _ s => s.ChainingTerminates)
      (launched none fun _ => .sigDfl : Host ℕ NSObject)
      [.crashEye (.add ⟨0, 0⟩), .install 0, .crashEye (.remove ⟨0, 0⟩), .uninstall 0,
        .crashEye (.add ⟨0, 0⟩)] := by
  intro hAlways
  have hTerminates := hAlways _ _ (List.prefix_refl _) rfl
  refine not_chainingTerminates (p := .recieveException) rfl ?_ hTerminates
  exact Chain.not_ends_of_cycle (b := .recieveException) rfl .refl

end Host

end LeigodAPM
