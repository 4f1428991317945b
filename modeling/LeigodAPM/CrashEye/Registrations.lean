import LeigodAPM.CrashEye.Delegates
import LeigodAPM.CrashEye.Undo

/-!
# `CrashEye` is open while it has registrations

`isOpen` follows the list of boxes, not the delegates in them: a deallocated delegate leaves
an empty box, and `CrashEye` stays open until a `remove` clears the box away.

* `always_registered`: at every operation boundary `isOpen` agrees with the list, no two live
  boxes share a hash, and the two handler variables are those that `isOpen` promises.
-/

namespace LeigodAPM.CrashEye

open Foundation Machine

variable {F Obj : Type*} [NSObjectProtocol Obj]

/-- What holds between two operations of a process that was launched with `handler`. -/
structure Registered (handler : Option F) (s : CrashEye F Obj) : Prop where
  isOpen_iff : s.isOpen = true ↔ s.delegates ≠ []
  distinct : Distinct s
  open_handler : s.isOpen = true → s.uncaughtExceptionHandler = some .recieveException
  open_saved : s.isOpen = true → s.app_old_exceptionHandler = handler.map .foreign
  closed_handler : s.isOpen = false → s.uncaughtExceptionHandler = handler.map .foreign

theorem notified_ne_nil {F Obj : Type*} {s : CrashEye F Obj} (h : s.notified ≠ []) :
    s.delegates ≠ [] := by
  intro hNil
  simp [notified, hNil] at h

variable [DecidableEq Obj] {s s' : CrashEye F Obj} {op : RegistryOp Obj}

theorem isOpen_iff_step (hIff : s.isOpen = true ↔ s.delegates ≠ [])
    (hStep : step s op = some s') : s'.isOpen = true ↔ s'.delegates ≠ [] := by
  obtain ⟨d, -, -, rfl⟩ | ⟨d, -, -, rfl⟩ | ⟨d, -, -, rfl⟩ := step_cases hStep
  · -- After an `add` the list holds the object or the one that took its hash.
    have hSome : (s.add d).notified ≠ [] := by
      rw [notified_add]
      split
      · rename_i hTaken
        obtain ⟨e, he, -⟩ := hTaken
        exact List.ne_nil_of_mem he
      · simp
    refine iff_of_true ?_ (notified_ne_nil hSome)
    rw [add_eq, open_isOpen]
  · rw [remove_eq]
    split
    · rename_i hNil
      simp [hNil]
    · rename_i hSome
      have hNotified : s.notified ≠ [] := by
        intro hNil
        simp [kept, hNil] at hSome
      simp [hIff, notified_ne_nil hNotified, hSome]
  · simpa [dealloc] using hIff

/-- **Registrations.** At every boundary of a run, however many objects were added. -/
theorem always_registered (handler : Option F) (disposition : Int32 → Disposition F)
    (ops : List (RegistryOp Obj)) :
    step.Always (fun _ s => Registered handler s) (launched handler disposition) ops := by
  have hIff : step.Always (fun _ s => s.isOpen = true ↔ s.delegates ≠ [])
      (launched handler disposition : CrashEye F Obj) ops :=
    always_of_step (I := fun _ s => s.isOpen = true ↔ s.delegates ≠ []) (by simp [launched])
      fun _ _ _ _ h hStep => isOpen_iff_step h hStep
  intro h s hh hRun
  have hSlots := always_slots handler disposition ops h s hh hRun
  constructor
  · exact hIff h s hh hRun
  · exact always_distinct handler disposition ops h s hh hRun
  · exact hSlots.open_handler
  · exact hSlots.open_saved
  · exact hSlots.closed_handler

/-- A delegate dies, `CrashEye` stays open, and the removal of another object closes it. -/
theorem always_registered_dead_delegate :
    ∃ s s', step.run (launched (none : Option Unit) fun _ => .sigDfl)
        [.add (⟨1, 7⟩ : NSObject), .dealloc ⟨1, 7⟩] = some s ∧
      step s (.remove ⟨2, 8⟩) = some s' ∧ Registered none s ∧ Registered none s' ∧
      s.isOpen = true ∧ s.notified = [] ∧ s'.isOpen = false := by
  have hAlways := always_registered (none : Option Unit) (fun _ => .sigDfl)
    [.add (⟨1, 7⟩ : NSObject), .dealloc ⟨1, 7⟩, .remove ⟨2, 8⟩]
  exact ⟨_, _, rfl, rfl, hAlways [.add ⟨1, 7⟩, .dealloc ⟨1, 7⟩] _ ⟨[.remove ⟨2, 8⟩], rfl⟩ rfl,
    hAlways.last rfl, rfl, rfl, rfl⟩

end LeigodAPM.CrashEye
