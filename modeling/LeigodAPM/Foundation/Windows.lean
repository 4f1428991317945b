import Mathlib.Algebra.BigOperators.Group.List.Basic
import Mathlib.Algebra.Order.Group.Defs
import Mathlib.Data.List.Chain
import Mathlib.Order.Lattice
import Mathlib.Tactic.Abel

/-!
# Cutting a stream into windows

A cutter collects items until one comes at least `width` after the start of the window.
That item closes the window, and the next window starts at its time.

* `isCut_cutAll`: the windows and the pending items are the stream, in order; every window
  is at least `width` wide, and each starts where the one before it stopped.
* `IsCut.sum_eq`: a sum over the stream is the sum over the windows and the pending items.
-/

namespace LeigodAPM.Foundation

/-- A closed window; its last item came at `stop`. -/
structure Window (K α : Type*) where
  start : K
  stop : K
  items : List α

structure Cutter (K α : Type*) where
  windows : List (Window K α)
  start : K
  pending : List α

namespace Cutter

variable {K α : Type*}

/-- A cutter that has seen no item. -/
def new (start : K) : Cutter K α := ⟨[], start, []⟩

variable [AddCommGroup K] [LinearOrder K]

/-- One more item. -/
def cut (time : α → K) (width : K) (c : Cutter K α) (a : α) : Cutter K α :=
  if width ≤ time a - c.start then
    ⟨c.windows ++ [⟨c.start, time a, c.pending ++ [a]⟩], time a, []⟩
  else { c with pending := c.pending ++ [a] }

def cutAll (time : α → K) (width : K) (c : Cutter K α) (l : List α) : Cutter K α :=
  l.foldl (cut time width) c

variable {time : α → K} {width start₀ : K} {c : Cutter K α} {l : List α} {a : α}

theorem cut_of_le (hLe : width ≤ time a - c.start) :
    c.cut time width a =
      ⟨c.windows ++ [⟨c.start, time a, c.pending ++ [a]⟩], time a, []⟩ := if_pos hLe

theorem cut_of_not_le (hNot : ¬ width ≤ time a - c.start) :
    c.cut time width a = { c with pending := c.pending ++ [a] } := if_neg hNot

theorem cutAll_concat (l : List α) (a : α) :
    c.cutAll time width (l ++ [a]) = (c.cutAll time width l).cut time width a := by
  simp [cutAll]

/-- `c` is the stream `l`, cut into windows from `start₀` on. -/
structure IsCut (time : α → K) (width start₀ : K) (l : List α) (c : Cutter K α) : Prop where
  items : (c.windows.flatMap fun w => w.items) ++ c.pending = l
  wide : ∀ w ∈ c.windows, width ≤ w.stop - w.start
  start : c.start = (c.windows.map fun w => w.stop).getLastD start₀
  last_item : c.start = ((c.windows.flatMap fun w => w.items).map time).getLastD start₀
  length : start₀ + (c.windows.map fun w => w.stop - w.start).sum = c.start
  adjacent : c.windows.IsChain fun w w' => w.stop = w'.start
  stop : ∀ w ∈ c.windows, w.stop = (w.items.map time).getLastD w.start
  /-- Every window is a segment of the stream, and starts at the time of the item before. -/
  segment : ∀ w ∈ c.windows, ∃ pre post, l = pre ++ w.items ++ post ∧
    w.start = (pre.map time).getLastD start₀

theorem isCut_new : IsCut time width start₀ [] (new start₀) where
  items := rfl
  wide := nofun
  start := rfl
  last_item := rfl
  length := by simp [new]
  adjacent := List.isChain_nil
  stop := nofun
  segment := nofun

/-- An item that closes the window. -/
theorem IsCut.close (hCut : IsCut time width start₀ l c) (hLe : width ≤ time a - c.start) :
    IsCut time width start₀ (l ++ [a])
      ⟨c.windows ++ [⟨c.start, time a, c.pending ++ [a]⟩], time a, []⟩ where
  items := by simp [← hCut.items]
  wide := by
    intro w hw
    rcases List.mem_append.mp hw with hw | hw
    · exact hCut.wide w hw
    · obtain rfl := List.mem_singleton.mp hw
      exact hLe
  start := by simp
  last_item := by simp
  length := by
    have hLength := hCut.length
    simp only [List.map_append, List.sum_append, List.map_cons, List.map_nil, List.sum_singleton]
    rw [← add_assoc, hLength]
    abel
  adjacent := by
    refine List.isChain_append.mpr ⟨hCut.adjacent, List.isChain_singleton _, ?_⟩
    intro w hw w' hw'
    obtain rfl : _ = w' := Option.some.inj hw'
    have hStart := hCut.start
    have hLast : (c.windows.map fun w => w.stop).getLast? = some w.stop := by
      rw [List.getLast?_map, Option.mem_def.mp hw]
      rfl
    rw [List.getLastD_eq_getLast?, hLast] at hStart
    exact hStart.symm
  stop := by
    intro w hw
    rcases List.mem_append.mp hw with hw | hw
    · exact hCut.stop w hw
    · obtain rfl := List.mem_singleton.mp hw
      simp
  segment := by
    intro w hw
    rcases List.mem_append.mp hw with hw | hw
    · obtain ⟨pre, post, rfl, hStart⟩ := hCut.segment w hw
      exact ⟨pre, post ++ [a], by simp, hStart⟩
    · obtain rfl := List.mem_singleton.mp hw
      exact ⟨_, [], by simp [← hCut.items], hCut.last_item⟩

/-- An item that comes before the window is wide enough. -/
theorem IsCut.push (hCut : IsCut time width start₀ l c) (a : α) :
    IsCut time width start₀ (l ++ [a]) { c with pending := c.pending ++ [a] } where
  items := by simp [← hCut.items]
  wide := hCut.wide
  start := hCut.start
  last_item := hCut.last_item
  length := hCut.length
  adjacent := hCut.adjacent
  stop := hCut.stop
  segment := by
    intro w hw
    obtain ⟨pre, post, rfl, hStart⟩ := hCut.segment w hw
    exact ⟨pre, post ++ [a], by simp, hStart⟩

theorem IsCut.cut (hCut : IsCut time width start₀ l c) (a : α) :
    IsCut time width start₀ (l ++ [a]) (c.cut time width a) := by
  by_cases hLe : width ≤ time a - c.start
  · rw [cut_of_le hLe]
    exact hCut.close hLe
  · rw [cut_of_not_le hLe]
    exact hCut.push a

/-- **The windows of a stream.** The induction is on the items seen so far. -/
theorem isCut_cutAll (time : α → K) (width start₀ : K) (l : List α) :
    IsCut time width start₀ l ((new start₀).cutAll time width l) := by
  induction l using List.reverseRecOn with
  | nil => exact isCut_new
  | append_singleton l a ih =>
    rw [cutAll_concat]
    exact ih.cut a

/-! ## Sums over the windows -/

/-- Nothing is lost and nothing is counted twice. -/
theorem IsCut.sum_eq {M : Type*} [AddCommMonoid M] (f : α → M)
    (hCut : IsCut time width start₀ l c) :
    (c.windows.map fun w => (w.items.map f).sum).sum + (c.pending.map f).sum = (l.map f).sum := by
  have hWindows : ∀ ws : List (Window K α), (ws.map fun w => (w.items.map f).sum).sum =
      ((ws.flatMap fun w => w.items).map f).sum := by
    intro ws
    induction ws with
    | nil => rfl
    | cons w ws ih => simp [ih]
  rw [hWindows, ← hCut.items, List.map_append, List.sum_append]

/-- The stops of successive windows are at least `width` apart. -/
theorem IsCut.apart (hCut : IsCut time width start₀ l c) :
    c.windows.IsChain fun w w' => width ≤ w'.stop - w.stop := by
  apply hCut.adjacent.imp_of_mem_imp
  intro w w' _ hw' hEq
  rw [hEq]
  exact hCut.wide w' hw'

end Cutter

end LeigodAPM.Foundation
