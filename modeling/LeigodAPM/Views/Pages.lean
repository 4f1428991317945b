import LeigodAPM.Foundation.Ownership
import LeigodAPM.Foundation.Run
import Mathlib.Data.List.Nodup

/-!
# What closing a page frees

A monitor page and a console page are view controllers on a navigation stack. Delegates and the
closures of buttons are weak, but a timer, a display link and a thread keep the target that
they call, and the system keeps them: the timer and the display link until they are
invalidated, the thread until it is cancelled, which no page does.

* `live_of_run`: when its controller is released, everything that a console page made is freed,
  and of a monitor page only the controller and its navigation bar.
-/

namespace LeigodAPM

open Foundation Machine

inductive Page
  | monitor
  | console
  deriving DecidableEq

/-- The objects of a page, which is named by its position. -/
inductive Object
  | monitorController (i : ℕ)
  | consoleController (i : ℕ)
  | navigationBar (i : ℕ)
  | containerView (i : ℕ)
  | fps (i : ℕ)
  | displayLink (i : ℕ)
  | networkFlow (i : ℕ)
  | eyeThread (i : ℕ)
  | timer (i : ℕ)
  | dataSource (i : ℕ)
  | recordTableView (i : ℕ)
  deriving DecidableEq

namespace Object

/-- The strong references of the code. -/
def holds : Object → Object → Bool
  | monitorController i, containerView j => i = j
  | monitorController i, navigationBar j => i = j
  | consoleController i, navigationBar j => i = j
  | consoleController i, dataSource j => i = j
  | consoleController i, recordTableView j => i = j
  | containerView i, fps j => i = j
  | containerView i, networkFlow j => i = j
  | fps i, displayLink j => i = j
  | displayLink i, fps j => i = j
  | networkFlow i, eyeThread j => i = j
  | eyeThread i, networkFlow j => i = j
  | timer i, containerView j => i = j
  | dataSource i, recordTableView j => i = j
  | _, _ => false

/-- What the run loop, the running threads and the navigation stack hold. -/
def root (stack : List ℕ) : Object → Bool
  | monitorController i => i ∈ stack
  | consoleController i => i ∈ stack
  | displayLink _ => true
  | eyeThread _ => true
  | timer _ => true
  | _ => false

/-- The page that made an object. -/
def index : Object → ℕ
  | monitorController i => i
  | consoleController i => i
  | navigationBar i => i
  | containerView i => i
  | fps i => i
  | displayLink i => i
  | networkFlow i => i
  | eyeThread i => i
  | timer i => i
  | dataSource i => i
  | recordTableView i => i

end Object

/-- The pages that were opened, those on the navigation stack, and the objects that live. -/
structure Pages where
  opened : List Page
  stack : List ℕ
  live : List Object

namespace Pages

def start : Pages := ⟨[], [], []⟩

/-- What `init` of a controller makes. -/
def created (i : ℕ) : Page → List Object
  | .monitor => [.monitorController i, .navigationBar i, .containerView i, .fps i, .displayLink i,
      .networkFlow i, .eyeThread i, .timer i]
  | .console => [.consoleController i, .navigationBar i, .dataSource i]

/-- The table view of a console is made in `viewDidLoad`. -/
inductive Event
  | push (page : Page)
  | viewDidLoad (i : ℕ)
  | release (i : ℕ)
  deriving DecidableEq

def step : Machine Pages Event
  | s, .push page =>
    let i := s.opened.length
    some ⟨s.opened ++ [page], s.stack ++ [i], s.live ++ created i page⟩
  | s, .viewDidLoad i =>
    if i ∈ s.stack then
      if s.opened[i]? = some .console then
        some { s with live := s.live ++ [.recordTableView i] }
      else some s
    else none
  | s, .release i =>
    if i ∈ s.stack then
      let stack := s.stack.erase i
      some ⟨s.opened, stack, collect (Object.root stack ·) (Object.holds · ·) s.live⟩
    else none

/-- The objects that live after a history. -/
def Lives (h : List Event) (s : Pages) : Object → Prop
  | .monitorController i => s.opened[i]? = some .monitor ∧ i ∈ s.stack
  | .consoleController i => s.opened[i]? = some .console ∧ i ∈ s.stack
  | .navigationBar i => i ∈ s.stack
  | .dataSource i => s.opened[i]? = some .console ∧ i ∈ s.stack
  | .recordTableView i =>
    s.opened[i]? = some .console ∧ i ∈ s.stack ∧ .viewDidLoad i ∈ h
  | .containerView i => s.opened[i]? = some .monitor
  | .fps i => s.opened[i]? = some .monitor
  | .displayLink i => s.opened[i]? = some .monitor
  | .networkFlow i => s.opened[i]? = some .monitor
  | .eyeThread i => s.opened[i]? = some .monitor
  | .timer i => s.opened[i]? = some .monitor

/-- Pages on the stack were opened, each once, and nothing else lives. -/
structure Invariant (h : List Event) (s : Pages) : Prop where
  stack_lt : ∀ i ∈ s.stack, i < s.opened.length
  nodup : s.stack.Nodup
  loaded_lt : ∀ i, .viewDidLoad i ∈ h → i < s.opened.length
  live_iff : ∀ o, o ∈ s.live ↔ Lives h s o

variable {h : List Event} {s s' : Pages} {e : Event}

/-- Opening a page changes nothing for the objects of the others. -/
theorem lives_push {page : Page} {o : Object} (hi : o.index ≠ s.opened.length) :
    Lives (h ++ [.push page]) ⟨s.opened ++ [page], s.stack ++ [s.opened.length], s.live⟩ o ↔
      Lives h s o := by
  have hOpened {i : ℕ} (hi : i ≠ s.opened.length) : (s.opened ++ [page])[i]? = s.opened[i]? := by
    rcases Nat.lt_or_gt_of_ne hi with hLt | hGt
    · exact List.getElem?_append_left hLt
    · have hLe : (s.opened ++ [page]).length ≤ i := by simpa [Nat.succ_le_iff] using hGt
      rw [List.getElem?_eq_none hLe, List.getElem?_eq_none hGt.le]
  cases o with
  | _ i => simp_all [Lives, Object.index]

/-- The objects of a new page are those that `init` makes. -/
theorem lives_created (hInv : Invariant h s) (page : Page) {o : Object}
    (hi : o.index = s.opened.length) :
    Lives (h ++ [.push page]) ⟨s.opened ++ [page], s.stack ++ [s.opened.length], s.live⟩ o ↔
      o ∈ created s.opened.length page := by
  have hLoaded : .viewDidLoad s.opened.length ∉ h := fun hMem =>
    Nat.lt_irrefl _ (hInv.loaded_lt _ hMem)
  cases o with
  | _ i =>
    obtain rfl : i = s.opened.length := hi
    cases page <;> simp [Lives, created, hLoaded]

theorem index_of_mem_created {i : ℕ} {page : Page} {o : Object} (ho : o ∈ created i page) :
    o.index = i := by
  cases page with
  | monitor =>
    simp only [created, List.mem_cons, List.not_mem_nil, or_false] at ho
    rcases ho with rfl | rfl | rfl | rfl | rfl | rfl | rfl | rfl <;> rfl
  | console =>
    simp only [created, List.mem_cons, List.not_mem_nil, or_false] at ho
    rcases ho with rfl | rfl | rfl <;> rfl

/-- Nothing of a page lives before the page is opened. -/
theorem Invariant.index_lt (hInv : Invariant h s) {o : Object} (ho : Lives h s o) :
    o.index < s.opened.length := by
  have hOpened {i : ℕ} {page : Page} (hi : s.opened[i]? = some page) : i < s.opened.length :=
    (List.getElem?_eq_some_iff.mp hi).1
  cases o with
  | monitorController i => exact hOpened ho.1
  | consoleController i => exact hOpened ho.1
  | navigationBar i => exact hInv.stack_lt i ho
  | dataSource i => exact hOpened ho.1
  | recordTableView i => exact hOpened ho.1
  | _ i => exact hOpened ho

theorem Invariant.push (hInv : Invariant h s) (page : Page) : Invariant (h ++ [.push page])
    ⟨s.opened ++ [page], s.stack ++ [s.opened.length], s.live ++ created s.opened.length page⟩ where
  stack_lt i hi := by
    rw [List.length_append, List.length_singleton]
    rcases List.mem_append.mp hi with hOld | hNew
    · exact Nat.lt_succ_of_lt (hInv.stack_lt i hOld)
    · rw [List.mem_singleton.mp hNew]
      exact Nat.lt_succ_self _
  nodup := by
    refine List.nodup_append.mpr ⟨hInv.nodup, List.nodup_singleton _, ?_⟩
    intro i hi j hj hEq
    rw [List.mem_singleton.mp hj] at hEq
    exact Nat.ne_of_lt (hInv.stack_lt i hi) hEq
  loaded_lt i hi := by
    rw [List.length_append, List.length_singleton]
    exact Nat.lt_succ_of_lt (hInv.loaded_lt i (by simpa using hi))
  live_iff o := by
    rw [List.mem_append, hInv.live_iff]
    by_cases hi : o.index = s.opened.length
    · have hOld : ¬ Lives h s o := fun ho => Nat.ne_of_lt (hInv.index_lt ho) hi
      rw [or_iff_right hOld]
      exact (lives_created hInv page hi).symm
    · have hNew : o ∉ created s.opened.length page := fun ho => hi (index_of_mem_created ho)
      rw [or_iff_left hNew]
      exact (lives_push hi).symm

/-! ## Releasing a controller -/

/-- Whoever lives after the release was alive and is held. -/
theorem supported_lives (hInv : Invariant h s) (i : ℕ) (live : List Object) :
    Supported (Object.root (s.stack.erase i) ·) (Object.holds · ·)
      (Lives (h ++ [.release i]) ⟨s.opened, s.stack.erase i, live⟩) := by
  intro o ho
  cases o with
  | monitorController j => exact Or.inl (by simpa [Object.root] using ho.2)
  | consoleController j => exact Or.inl (by simpa [Object.root] using ho.2)
  | navigationBar j =>
    have hLt := hInv.stack_lt j (List.mem_of_mem_erase ho)
    obtain ⟨page, hPage⟩ : ∃ page, s.opened[j]? = some page := ⟨_, List.getElem?_eq_getElem hLt⟩
    right
    cases page with
    | monitor => exact ⟨.monitorController j, ⟨hPage, ho⟩, by simp [Object.holds]⟩
    | console => exact ⟨.consoleController j, ⟨hPage, ho⟩, by simp [Object.holds]⟩
  | dataSource j => exact Or.inr ⟨.consoleController j, ho, by simp [Object.holds]⟩
  | recordTableView j =>
    exact Or.inr ⟨.consoleController j, ⟨ho.1, ho.2.1⟩, by simp [Object.holds]⟩
  | containerView j => exact Or.inr ⟨.timer j, ho, by simp [Object.holds]⟩
  | fps j => exact Or.inr ⟨.containerView j, ho, by simp [Object.holds]⟩
  | networkFlow j => exact Or.inr ⟨.containerView j, ho, by simp [Object.holds]⟩
  | displayLink j => exact Or.inl rfl
  | eyeThread j => exact Or.inl rfl
  | timer j => exact Or.inl rfl

/-- In a supported set the objects of a page need its controller. -/
theorem lives_of_supported (hInv : Invariant h s) {i : ℕ} {S : Object → Prop}
    (hS : Supported (Object.root (s.stack.erase i) ·) (Object.holds · ·) S)
    (hLive : ∀ o, S o → o ∈ s.live) (live : List Object) {o : Object} (ho : S o) :
    Lives (h ++ [.release i]) ⟨s.opened, s.stack.erase i, live⟩ o := by
  have hMonitor {j : ℕ} (hj : S (.monitorController j)) : j ∈ s.stack.erase i := by
    rcases hS _ hj with hRoot | ⟨p, -, hHolds⟩
    · simpa [Object.root] using hRoot
    · cases p <;> cases hHolds
  have hConsole {j : ℕ} (hj : S (.consoleController j)) : j ∈ s.stack.erase i := by
    rcases hS _ hj with hRoot | ⟨p, -, hHolds⟩
    · simpa [Object.root] using hRoot
    · cases p <;> cases hHolds
  have hSource {j : ℕ} (hj : S (.dataSource j)) : j ∈ s.stack.erase i := by
    rcases hS _ hj with hRoot | ⟨p, hp, hHolds⟩
    · cases hRoot
    · cases p with
      | consoleController k =>
        obtain rfl : k = j := by simpa [Object.holds] using hHolds
        exact hConsole hp
      | _ k => cases hHolds
  have hBefore := (hInv.live_iff o).mp (hLive o ho)
  cases o with
  | monitorController j => exact ⟨hBefore.1, hMonitor ho⟩
  | consoleController j => exact ⟨hBefore.1, hConsole ho⟩
  | navigationBar j =>
    rcases hS _ ho with hRoot | ⟨p, hp, hHolds⟩
    · cases hRoot
    · cases p with
      | monitorController k =>
        obtain rfl : k = j := by simpa [Object.holds] using hHolds
        exact hMonitor hp
      | consoleController k =>
        obtain rfl : k = j := by simpa [Object.holds] using hHolds
        exact hConsole hp
      | _ k => cases hHolds
  | dataSource j => exact ⟨hBefore.1, hSource ho⟩
  | recordTableView j =>
    refine ⟨hBefore.1, ?_, List.mem_append_left _ hBefore.2.2⟩
    rcases hS _ ho with hRoot | ⟨p, hp, hHolds⟩
    · cases hRoot
    · cases p with
      | consoleController k =>
        obtain rfl : k = j := by simpa [Object.holds] using hHolds
        exact hConsole hp
      | dataSource k =>
        obtain rfl : k = j := by simpa [Object.holds] using hHolds
        exact hSource hp
      | _ k => cases hHolds
  | _ j => exact hBefore

theorem Invariant.release (hInv : Invariant h s) (i : ℕ) : Invariant (h ++ [.release i])
    ⟨s.opened, s.stack.erase i,
      collect (Object.root (s.stack.erase i) ·) (Object.holds · ·) s.live⟩ where
  stack_lt j hj := hInv.stack_lt j (List.mem_of_mem_erase hj)
  nodup := hInv.nodup.erase i
  loaded_lt j hj := hInv.loaded_lt j (by simpa using hj)
  live_iff o := by
    rw [mem_collect_iff]
    constructor
    · rintro ⟨S, hS, hLive, ho⟩
      exact lives_of_supported hInv hS hLive _ ho
    · intro ho
      refine ⟨_, supported_lives hInv i s.live, fun x hx => (hInv.live_iff x).mpr ?_, ho⟩
      cases x with
      | monitorController j => exact ⟨hx.1, List.mem_of_mem_erase hx.2⟩
      | consoleController j => exact ⟨hx.1, List.mem_of_mem_erase hx.2⟩
      | navigationBar j => exact List.mem_of_mem_erase hx
      | dataSource j => exact ⟨hx.1, List.mem_of_mem_erase hx.2⟩
      | recordTableView j =>
        exact ⟨hx.1, List.mem_of_mem_erase hx.2.1, by simpa using hx.2.2⟩
      | _ j => exact hx

/-- Loading the view of a page adds the table view of a console. -/
theorem Invariant.viewDidLoad (hInv : Invariant h s) {i : ℕ} (hi : i ∈ s.stack) :
    Invariant (h ++ [.viewDidLoad i]) (if s.opened[i]? = some .console then
      { s with live := s.live ++ [.recordTableView i] } else s) := by
  have hLoaded (j : ℕ) (hj : .viewDidLoad j ∈ h ++ [.viewDidLoad i]) : j < s.opened.length := by
    rcases List.mem_append.mp hj with hOld | hNew
    · exact hInv.loaded_lt j hOld
    · obtain rfl := Event.viewDidLoad.inj (List.mem_singleton.mp hNew)
      exact hInv.stack_lt j hi
  by_cases hPage : s.opened[i]? = some .console
  · rw [if_pos hPage]
    refine ⟨hInv.stack_lt, hInv.nodup, hLoaded, fun o => ?_⟩
    rw [List.mem_append, List.mem_singleton, hInv.live_iff]
    cases o with
    | recordTableView j =>
      by_cases hEq : j = i
      · subst hEq
        simp [Lives, hPage, hi]
      · simp [Lives, hEq]
    | _ j => simp [Lives]
  · rw [if_neg hPage]
    refine ⟨hInv.stack_lt, hInv.nodup, hLoaded, fun o => ?_⟩
    rw [hInv.live_iff]
    cases o with
    | recordTableView j =>
      by_cases hEq : j = i
      · subst hEq
        simp [Lives, hPage]
      · simp [Lives, hEq]
    | _ j => exact Iff.rfl

theorem Invariant.step (hInv : Invariant h s) (hStep : step s e = some s') :
    Invariant (h ++ [e]) s' := by
  cases e with
  | push page =>
    obtain rfl := Option.some.inj hStep
    exact hInv.push page
  | viewDidLoad i =>
    rw [Pages.step] at hStep
    by_cases hi : i ∈ s.stack
    · rw [if_pos hi] at hStep
      have hLoad := hInv.viewDidLoad hi
      split at hStep
      · rename_i hPage
        obtain rfl := Option.some.inj hStep
        rwa [if_pos hPage] at hLoad
      · rename_i hPage
        obtain rfl := Option.some.inj hStep
        rwa [if_neg hPage] at hLoad
    · rw [if_neg hi] at hStep
      cases hStep
  | release i =>
    rw [Pages.step] at hStep
    split at hStep
    · obtain rfl := Option.some.inj hStep
      exact hInv.release i
    · cases hStep

/-- **What lives.** In every state of a run the objects that live are: of a console page those
that it made, while its controller is on the stack; of a monitor page the controller and the
bar while it is on the stack, and the container with its timer, its display link and its worker
for ever. -/
theorem live_of_run (events : List Event) :
    step.Always (fun h s => ∀ o, o ∈ s.live ↔ Lives h s o) start events := by
  have hStart : Invariant [] start := by
    refine ⟨by simp [start], List.nodup_nil, by simp, fun o => ?_⟩
    cases o <;> simp [start, Lives]
  have hAlways : step.Always Invariant start events :=
    always_of_step hStart fun h s e s' hInv hStep => hInv.step hStep
  exact hAlways.mono fun h s hInv => hInv.live_iff

end Pages

end LeigodAPM
