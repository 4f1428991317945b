import LeigodAPM.Foundation.Registry
import Mathlib.Logic.Function.Basic

/-!
# The state of `CrashEye`

`CrashEye` is a class with static members only: the flag `isOpen`, the weak list
`delegates` and, next to the class, the saved handler `app_old_exceptionHandler`. Its
functions write two process-wide tables, the uncaught-exception handler and the signal
dispositions. Both tables and the statics form one record here, together with the objects
that have been deallocated, on which the weak references depend.

`step` is the machine of `add(delegate:)`, `remove(delegate:)` and deallocations. The
functions `open` and `close` are private in the source and run inside these.
-/

namespace LeigodAPM

open Foundation

/-- The part of `NSObjectProtocol` that `CrashEye` reads. Objects are compared by
identity; `hash` may be overridden and may agree on different objects. -/
class NSObjectProtocol (Obj : Type*) where
  hash : Obj → Int

/-- An object given by its address and the value its `hash` returns. -/
structure NSObject where
  address : ℕ
  hash : Int
  deriving DecidableEq

instance : NSObjectProtocol NSObject := ⟨NSObject.hash⟩

/-! ## Handlers -/

/-- A function that can be installed as the uncaught-exception handler: the private
`CrashEye.RecieveException`, or one of the functions `F` of other components. -/
inductive ExceptionHandler (F : Type*)
  | recieveException
  | foreign (f : F)
  deriving DecidableEq

/-- What a signal does in a process without `CrashEye`. -/
inductive Disposition (F : Type*)
  | sigDfl
  | sigIgn
  | foreign (f : F)
  deriving DecidableEq

/-- An entry of the signal table: the private `CrashEye.RecieveSignal`, or anything else. -/
inductive SignalHandler (F : Type*)
  | recieveSignal
  | other (d : Disposition F)
  deriving DecidableEq

def SIGILL : Int32 := 4
def SIGTRAP : Int32 := 5
def SIGABRT : Int32 := 6
def SIGFPE : Int32 := 8
def SIGBUS : Int32 := 10
def SIGSEGV : Int32 := 11
def SIGPIPE : Int32 := 13

/-- The signals that `setCrashSignalHandler` hooks, in its order. -/
def crashSignals : List Int32 :=
  [SIGABRT, SIGILL, SIGSEGV, SIGFPE, SIGBUS, SIGPIPE, SIGTRAP]

/-! ## The record -/

/-- A box around a weak reference; `none` once the object has been deallocated. -/
structure WeakCrashEyeDelegate (Obj : Type*) where
  delegate : Option Obj
  deriving DecidableEq

/-- The statics of `CrashEye`, the process tables it writes, and the deallocated objects. -/
structure CrashEye (F Obj : Type*) where
  uncaughtExceptionHandler : Option (ExceptionHandler F)
  disposition : Int32 → SignalHandler F
  isOpen : Bool
  app_old_exceptionHandler : Option (ExceptionHandler F)
  delegates : List (WeakCrashEyeDelegate Obj)
  deallocated : List Obj

namespace CrashEye

variable {F Obj : Type*}

/-- A process in which `CrashEye` has not been used yet. Its handlers belong to others,
because those of `CrashEye` are private. -/
def launched (handler : Option F) (disposition : Int32 → Disposition F) : CrashEye F Obj where
  uncaughtExceptionHandler := handler.map .foreign
  disposition n := .other (disposition n)
  isOpen := false
  app_old_exceptionHandler := none
  delegates := []
  deallocated := []

/-- The delegates a crash loop calls, in its order: the boxes that are not empty. -/
def notified (s : CrashEye F Obj) : List Obj := s.delegates.filterMap (·.delegate)

/-! ## Opening and closing -/

/-- `signal(n, handler)`. -/
def signal (n : Int32) (handler : SignalHandler F) (s : CrashEye F Obj) : CrashEye F Obj :=
  { s with disposition := Function.update s.disposition n handler }

def setCrashSignalHandler (s : CrashEye F Obj) : CrashEye F Obj :=
  s |> signal SIGABRT .recieveSignal
    |> signal SIGILL .recieveSignal
    |> signal SIGSEGV .recieveSignal
    |> signal SIGFPE .recieveSignal
    |> signal SIGBUS .recieveSignal
    |> signal SIGPIPE .recieveSignal
    |> signal SIGTRAP .recieveSignal

def «open» (s : CrashEye F Obj) : CrashEye F Obj :=
  if s.isOpen = false then
    setCrashSignalHandler
      { s with
        isOpen := true
        app_old_exceptionHandler := s.uncaughtExceptionHandler
        uncaughtExceptionHandler := some .recieveException }
  else s

def close (s : CrashEye F Obj) : CrashEye F Obj :=
  if s.isOpen = true then
    { s with
      isOpen := false
      uncaughtExceptionHandler := s.app_old_exceptionHandler }
  else s

/-! ## The delegates -/

/-- Delete the boxes whose delegate has been deallocated. -/
def dropNull (s : CrashEye F Obj) : CrashEye F Obj :=
  { s with delegates := s.delegates.filter fun w => w.delegate.isSome }

section Hash

variable [NSObjectProtocol Obj]

def add (s : CrashEye F Obj) (delegate : Obj) : CrashEye F Obj :=
  let s := s.dropNull
  let contains := s.delegates.any fun w =>
    w.delegate.map NSObjectProtocol.hash == some (NSObjectProtocol.hash delegate)
  let s := if contains = false then
    { s with delegates := s.delegates ++ [⟨some delegate⟩] } else s
  if s.delegates.length > 0 then s.open else s

def remove (s : CrashEye F Obj) (delegate : Obj) : CrashEye F Obj :=
  let s := s.dropNull
  let s :=
    { s with
      delegates := s.delegates.filter fun w =>
        w.delegate.map NSObjectProtocol.hash != some (NSObjectProtocol.hash delegate) }
  if s.delegates.length = 0 then s.close else s

end Hash

/-- The runtime empties the weak references to a deallocated object. -/
def dealloc [DecidableEq Obj] (s : CrashEye F Obj) (object : Obj) : CrashEye F Obj :=
  { s with
    delegates := s.delegates.map fun w => if w.delegate = some object then ⟨none⟩ else w
    deallocated := object :: s.deallocated }

/-- The machine of `add`, `remove` and deallocations. A caller holds the object it passes,
so that a deallocated one is passed to nothing and dies only once. -/
def step [DecidableEq Obj] [NSObjectProtocol Obj] : Machine (CrashEye F Obj) (RegistryOp Obj)
  | s, .add d => if d ∈ s.deallocated then none else some (s.add d)
  | s, .remove d => if d ∈ s.deallocated then none else some (s.remove d)
  | s, .dealloc d => if d ∈ s.deallocated then none else some (s.dealloc d)

/-! ## What opening and closing write -/

section OpenClose

variable (s : CrashEye F Obj)

theorem setCrashSignalHandler_disposition (n : Int32) :
    s.setCrashSignalHandler.disposition n =
      if n ∈ crashSignals then .recieveSignal else s.disposition n := by
  simp only [setCrashSignalHandler, signal, Function.update_apply, crashSignals, List.mem_cons,
    List.not_mem_nil, or_false]
  split_ifs <;> simp_all

@[simp] theorem open_isOpen : s.open.isOpen = true := by
  unfold CrashEye.open
  split
  · rfl
  · simp_all

@[simp] theorem close_isOpen : s.close.isOpen = false := by
  unfold close
  split
  · rfl
  · simp_all

@[simp] theorem open_delegates : s.open.delegates = s.delegates := by
  unfold CrashEye.open
  split <;> rfl

@[simp] theorem open_deallocated : s.open.deallocated = s.deallocated := by
  unfold CrashEye.open
  split <;> rfl

@[simp] theorem close_delegates : s.close.delegates = s.delegates := by
  unfold close
  split <;> rfl

@[simp] theorem close_deallocated : s.close.deallocated = s.deallocated := by
  unfold close
  split <;> rfl

@[simp] theorem close_disposition : s.close.disposition = s.disposition := by
  unfold close
  split <;> rfl

end OpenClose

/-! ## What one operation does -/

/-- The list of full boxes around the given objects. -/
def boxes (objects : List Obj) : List (WeakCrashEyeDelegate Obj) :=
  objects.map fun d => ⟨some d⟩

@[simp] theorem boxes_eq_nil {objects : List Obj} : boxes objects = [] ↔ objects = [] := by
  simp [boxes]

@[simp] theorem filterMap_boxes (objects : List Obj) :
    (boxes objects).filterMap (·.delegate) = objects := by
  simp [boxes, List.filterMap_map]

theorem dropNull_eq (s : CrashEye F Obj) :
    s.dropNull = { s with delegates := boxes s.notified } := by
  unfold dropNull
  congr 1
  unfold notified boxes
  induction s.delegates with
  | nil => rfl
  | cons w ws ih =>
    obtain ⟨_ | d⟩ := w
    · simpa using ih
    · simpa using ih

section Operations

variable [NSObjectProtocol Obj] {s : CrashEye F Obj} {d : Obj}

/-- Some delegate that a crash loop would call has the hash of `d`. -/
def HashTaken (s : CrashEye F Obj) (d : Obj) : Prop :=
  ∃ e ∈ s.notified, NSObjectProtocol.hash e = NSObjectProtocol.hash d

instance (s : CrashEye F Obj) (d : Obj) : Decidable (s.HashTaken d) :=
  inferInstanceAs (Decidable (∃ e ∈ s.notified, _))

/-- The delegates that `remove` keeps. -/
def kept (s : CrashEye F Obj) (d : Obj) : List Obj :=
  s.notified.filter fun e => NSObjectProtocol.hash e ≠ NSObjectProtocol.hash d

theorem add_eq (s : CrashEye F Obj) (d : Obj) :
    s.add d = CrashEye.open
      { s with
        delegates := boxes (if s.HashTaken d then s.notified else s.notified ++ [d]) } := by
  have hAny : (boxes s.notified).any (fun w =>
      w.delegate.map NSObjectProtocol.hash == some (NSObjectProtocol.hash d)) =
        decide (s.HashTaken d) := by
    rw [Bool.eq_iff_iff, decide_eq_true_iff]
    simp [boxes, HashTaken]
  simp only [add, dropNull_eq, hAny, decide_eq_false_iff_not]
  by_cases hTaken : s.HashTaken d
  · have hne : s.notified ≠ [] := by
      obtain ⟨e, he, _⟩ := hTaken
      exact List.ne_nil_of_mem he
    simp [hTaken, boxes, hne, List.length_pos_iff]
  · simp [hTaken, boxes]

theorem remove_eq (s : CrashEye F Obj) (d : Obj) :
    s.remove d = if s.kept d = [] then CrashEye.close { s with delegates := boxes (s.kept d) }
      else { s with delegates := boxes (s.kept d) } := by
  have hFilter : (boxes s.notified).filter (fun w =>
      w.delegate.map NSObjectProtocol.hash != some (NSObjectProtocol.hash d)) =
        boxes (s.kept d) := by
    simp [boxes, kept, List.filter_map, Function.comp_def, bne, beq_eq_decide]
  simp only [remove, dropNull_eq, hFilter, List.length_eq_zero_iff, boxes_eq_nil]

theorem notified_add : (s.add d).notified =
    if s.HashTaken d then s.notified else s.notified ++ [d] := by
  rw [add_eq, notified, open_delegates, filterMap_boxes]

theorem notified_remove : (s.remove d).notified = s.kept d := by
  rw [remove_eq]
  split <;> simp [notified]

@[simp] theorem add_deallocated : (s.add d).deallocated = s.deallocated := by
  rw [add_eq, open_deallocated]

@[simp] theorem remove_deallocated : (s.remove d).deallocated = s.deallocated := by
  rw [remove_eq]
  split <;> simp

end Operations

theorem notified_dealloc [DecidableEq Obj] {s : CrashEye F Obj} {d : Obj} :
    (s.dealloc d).notified = s.notified.filter (· ≠ d) := by
  simp only [notified, dealloc]
  induction s.delegates with
  | nil => rfl
  | cons w ws ih =>
    obtain ⟨_ | e⟩ := w
    · simpa using ih
    · by_cases he : e = d
      · simpa [he] using ih
      · simpa [he] using ih

/-- What a step of the machine is: one of the three operations, on an object that has not
been deallocated. -/
theorem step_cases [DecidableEq Obj] [NSObjectProtocol Obj] {s s' : CrashEye F Obj}
    {op : RegistryOp Obj} (hStep : step s op = some s') :
    (∃ d, op = .add d ∧ d ∉ s.deallocated ∧ s' = s.add d) ∨
      (∃ d, op = .remove d ∧ d ∉ s.deallocated ∧ s' = s.remove d) ∨
      ∃ d, op = .dealloc d ∧ d ∉ s.deallocated ∧ s' = s.dealloc d := by
  cases op with
  | add d =>
    simp only [step, Option.ite_none_left_eq_some, Option.some.injEq] at hStep
    exact Or.inl ⟨d, rfl, hStep.1, hStep.2.symm⟩
  | remove d =>
    simp only [step, Option.ite_none_left_eq_some, Option.some.injEq] at hStep
    exact Or.inr (Or.inl ⟨d, rfl, hStep.1, hStep.2.symm⟩)
  | dealloc d =>
    simp only [step, Option.ite_none_left_eq_some, Option.some.injEq] at hStep
    exact Or.inr (Or.inr ⟨d, rfl, hStep.1, hStep.2.symm⟩)

end CrashEye

end LeigodAPM
