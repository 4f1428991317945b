import LeigodAPM.CrashEye.Statics

/-!
# What closing `CrashEye` undoes

`close` gives the uncaught-exception handler back, but not the signal dispositions that
`setCrashSignalHandler` replaced. The invariant `Slots` says what the process tables and
`app_old_exceptionHandler` hold in terms of `isOpen`; it is kept by every step.

* `slots_step`: no step breaks `Slots`, so the exception handler is always restored.
* `undone_iff_never_closes`: on a whole run everything is undone in every closed state
  exactly when no step of the run closes `CrashEye`.
-/

namespace LeigodAPM.CrashEye

open Foundation Machine

variable {F Obj : Type*}

/-! ## The process tables -/

/-- The process tables and the saved handler, for a process that was launched with
`handler` and `disposition`. -/
structure Slots (handler : Option F) (disposition : Int32 → Disposition F)
    (s : CrashEye F Obj) : Prop where
  open_handler : s.isOpen = true → s.uncaughtExceptionHandler = some .recieveException
  open_saved : s.isOpen = true → s.app_old_exceptionHandler = handler.map .foreign
  open_signals : s.isOpen = true → ∀ n ∈ crashSignals, s.disposition n = .recieveSignal
  closed_handler : s.isOpen = false → s.uncaughtExceptionHandler = handler.map .foreign
  other_signals : ∀ n, n ∉ crashSignals → s.disposition n = .other (disposition n)

section Slots

variable {handler : Option F} {disposition : Int32 → Disposition F} {s : CrashEye F Obj}

theorem slots_launched : Slots handler disposition (launched handler disposition :
    CrashEye F Obj) where
  open_handler h := by cases h
  open_saved h := by cases h
  open_signals h := by cases h
  closed_handler _ := rfl
  other_signals _ _ := rfl

theorem Slots.open (h : Slots handler disposition s) : Slots handler disposition s.open := by
  unfold CrashEye.open
  split
  · rename_i hClosed
    refine ⟨fun _ => rfl, fun _ => h.closed_handler hClosed, fun _ n hn => ?_, ?_, fun n hn => ?_⟩
    · rw [setCrashSignalHandler_disposition, if_pos hn]
    · intro hFalse
      cases hFalse
    · rw [setCrashSignalHandler_disposition, if_neg hn]
      exact h.other_signals n hn
  · exact h

theorem Slots.close (h : Slots handler disposition s) : Slots handler disposition s.close := by
  unfold CrashEye.close
  split
  · rename_i hOpen
    exact ⟨by simp, by simp, by simp, fun _ => h.open_saved hOpen, h.other_signals⟩
  · exact h

/-- `Slots` does not read the list of delegates. -/
theorem Slots.with_delegates (h : Slots handler disposition s)
    (ds : List (WeakCrashEyeDelegate Obj)) : Slots handler disposition { s with delegates := ds } :=
  ⟨h.open_handler, h.open_saved, h.open_signals, h.closed_handler, h.other_signals⟩

theorem slots_step [DecidableEq Obj] [NSObjectProtocol Obj] {s' : CrashEye F Obj}
    {op : RegistryOp Obj} (h : Slots handler disposition s) (hStep : step s op = some s') :
    Slots handler disposition s' := by
  obtain ⟨d, -, -, rfl⟩ | ⟨d, -, -, rfl⟩ | ⟨d, -, -, rfl⟩ := step_cases hStep
  · rw [add_eq]
    exact (h.with_delegates _).open
  · rw [remove_eq]
    split
    · exact (h.with_delegates _).close
    · exact h.with_delegates _
  · exact ⟨h.open_handler, h.open_saved, h.open_signals, h.closed_handler, h.other_signals⟩

theorem always_slots [DecidableEq Obj] [NSObjectProtocol Obj] (handler : Option F)
    (disposition : Int32 → Disposition F) (ops : List (RegistryOp Obj)) :
    step.Always (fun _ s => Slots handler disposition s) (launched handler disposition) ops :=
  always_of_step (I := fun _ s => Slots handler disposition s) slots_launched
    fun _ _ _ _ h hStep => slots_step h hStep

end Slots

/-! ## The signal dispositions -/

/-- The handlers of the process are those that it was launched with. -/
def Undone (handler : Option F) (disposition : Int32 → Disposition F) (s : CrashEye F Obj) :
    Prop :=
  s.uncaughtExceptionHandler = handler.map .foreign ∧
    ∀ n ∈ crashSignals, s.disposition n = .other (disposition n)

section Closing

variable [NSObjectProtocol Obj]

/-- The operation is a `remove` after which no live delegate is left, in a state in which
`CrashEye` is open. -/
def Closes (s : CrashEye F Obj) (op : RegistryOp Obj) : Prop :=
  s.isOpen = true ∧ ∃ d, op = .remove d ∧
    ∀ e ∈ s.notified, NSObjectProtocol.hash e = NSObjectProtocol.hash d

theorem kept_eq_nil {s : CrashEye F Obj} {d : Obj} :
    s.kept d = [] ↔ ∀ e ∈ s.notified, NSObjectProtocol.hash e = NSObjectProtocol.hash d := by
  simp [kept, List.filter_eq_nil_iff]

theorem disposition_remove (s : CrashEye F Obj) (d : Obj) :
    (s.remove d).disposition = s.disposition := by
  rw [remove_eq]
  split <;> simp

variable [DecidableEq Obj] {s s' : CrashEye F Obj} {op : RegistryOp Obj}

/-- A step that closes turns the flag off and leaves the signal table as it is. -/
theorem step_closes (hCloses : Closes s op) (hStep : step s op = some s') :
    s'.isOpen = false ∧ s'.disposition = s.disposition := by
  obtain ⟨-, d, rfl, hAll⟩ := hCloses
  obtain ⟨e, he, -, rfl⟩ | ⟨e, he, -, rfl⟩ | ⟨e, he, -, rfl⟩ := step_cases hStep
  · cases he
  · cases he
    refine ⟨?_, disposition_remove s d⟩
    rw [remove_eq, if_pos (kept_eq_nil.mpr hAll), close_isOpen]
  · cases he

/-- A step that does not close changes the signal table only by opening. -/
theorem step_not_closes (hNot : ¬ Closes s op) (hStep : step s op = some s')
    (hClosed : s'.isOpen = false) : s.isOpen = false ∧ s'.disposition = s.disposition := by
  obtain ⟨d, -, -, rfl⟩ | ⟨d, rfl, -, rfl⟩ | ⟨d, -, -, rfl⟩ := step_cases hStep
  · rw [add_eq, open_isOpen] at hClosed
    cases hClosed
  · refine ⟨?_, disposition_remove s d⟩
    by_contra hOpen
    have hOpen' : s.isOpen = true := by simpa using hOpen
    have hKept : s.kept d ≠ [] := fun hNil =>
      hNot ⟨hOpen', d, rfl, kept_eq_nil.mp hNil⟩
    rw [remove_eq, if_neg hKept] at hClosed
    exact hOpen hClosed
  · exact ⟨hClosed, rfl⟩

/-- **What closing undoes.** In every state of a run in which `CrashEye` is closed all
handlers are those of the launch, exactly when no step of the run closes `CrashEye`. -/
theorem undone_iff_never_closes (handler : Option F) (disposition : Int32 → Disposition F)
    (ops : List (RegistryOp Obj)) :
    step.Always (fun _ s => s.isOpen = false → Undone handler disposition s)
        (launched handler disposition) ops ↔
      step.EachStep (fun _ s op => ¬ Closes s op) (launched handler disposition) ops := by
  -- While nothing closes, a closed state is one in which nothing has been opened yet.
  refine always_iff_eachStep
    (I := fun _ s => Slots handler disposition s ∧
      (s.isOpen = false → ∀ n, s.disposition n = .other (disposition n)))
    ⟨slots_launched, fun _ _ => rfl⟩ ?_ ?_ ?_
  · rintro _ s ⟨hSlots, hTable⟩ hClosed
    exact ⟨hSlots.closed_handler hClosed, fun n _ => hTable hClosed n⟩
  · rintro _ s op s' ⟨hSlots, hTable⟩ hNot hStep
    refine ⟨slots_step hSlots hStep, fun hClosed => ?_⟩
    obtain ⟨hBefore, hEq⟩ := step_not_closes hNot hStep hClosed
    rw [hEq]
    exact hTable hBefore
  · rintro _ s op s' ⟨hSlots, -⟩ hNotNot hStep hUndone
    have hCloses := not_not.mp hNotNot
    obtain ⟨hClosed, hEq⟩ := step_closes hCloses hStep
    have hAbrt := (hUndone hClosed).2 SIGABRT (by decide)
    rw [hEq, hSlots.open_signals hCloses.1 SIGABRT (by decide)] at hAbrt
    cases hAbrt

end Closing

/-- One delegate is added and removed again: `CrashEye` is closed and its signal handler
is still installed. -/
theorem close_keeps_signal_handlers :
    ¬ step.Always (fun _ s => s.isOpen = false → Undone none (fun _ => .sigDfl) s)
      (launched none fun _ => .sigDfl : CrashEye ℕ NSObject) [.add ⟨0, 0⟩, .remove ⟨0, 0⟩] := by
  intro hAlways
  have hUndone := hAlways _ _ (List.prefix_refl _) rfl rfl
  have hAbrt := hUndone.2 SIGABRT (by decide)
  cases hAbrt

end LeigodAPM.CrashEye
