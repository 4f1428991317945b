import LeigodAPM.Foundation.Parties
import LeigodAPM.Foundation.Run

/-!
# The lock of a handle pool

`RWLock` is a lock for many readers or one writer, made from a mutex and a condition. The mutex
is held throughout each method, except while the method sleeps on the condition, so that one
step runs until a method returns or sleeps. A caller that is awake goes on in its loop when the
mutex is free, in any order, and it may also wake up without a broadcast.

* `exclusion_of_run`: after every run the counters are right, a writer is alone, and when nobody
  has the lock, somebody who waits for it can take it.
-/

namespace LeigodAPM

open Foundation

/-- Where a caller is. In the loop of `lockRead` or `lockWrite` it sleeps or is awake. -/
inductive LockPlace
  | outside
  | lockRead (asleep : Bool)
  | reading
  | lockWrite (asleep : Bool)
  | writing
  deriving DecidableEq

namespace LockPlace

def woken : LockPlace → LockPlace
  | lockRead _ => lockRead false
  | lockWrite _ => lockWrite false
  | x => x

def isReading : LockPlace → Bool
  | reading => true
  | _ => false

def isWriting : LockPlace → Bool
  | writing => true
  | _ => false

def isAsleep : LockPlace → Bool
  | lockRead asleep => asleep
  | lockWrite asleep => asleep
  | _ => false

/-- In the loop of `lockWrite`. -/
def isPending : LockPlace → Bool
  | lockWrite _ => true
  | _ => false

/-- The side of the lock that a caller has or waits for; `true` is writing. -/
def side : LockPlace → Option Bool
  | outside => none
  | lockRead _ => some false
  | reading => some false
  | lockWrite _ => some true
  | writing => some true

@[simp] theorem isReading_eq_true_iff (x : LockPlace) : x.isReading = true ↔ x = reading := by
  cases x <;> simp [isReading]

@[simp] theorem isWriting_eq_true_iff (x : LockPlace) : x.isWriting = true ↔ x = writing := by
  cases x <;> simp [isWriting]

@[simp] theorem isPending_eq_true_iff (x : LockPlace) :
    x.isPending = true ↔ ∃ asleep, x = lockWrite asleep := by
  cases x <;> simp [isPending]

theorem side_woken (x : LockPlace) : x.woken.side = x.side := by
  cases x <;> rfl

theorem isReading_woken (x : LockPlace) : x.woken.isReading = x.isReading := by
  cases x <;> rfl

theorem isWriting_woken (x : LockPlace) : x.woken.isWriting = x.isWriting := by
  cases x <;> rfl

theorem isPending_woken (x : LockPlace) : x.woken.isPending = x.isPending := by
  cases x <;> rfl

end LockPlace

/-- The counters of the lock, and where each of its callers is. -/
structure RWLock (T : Type) where
  reader : ℤ
  writer : ℤ
  pending : ℤ
  place : T → LockPlace

inductive LockEvent (T : Type)
  | lockRead (t : T)
  | unlockRead (t : T)
  | lockWrite (t : T)
  | unlockWrite (t : T)
  /-- A sleeping caller wakes up without a broadcast. -/
  | wake (t : T)
  /-- `pthread_cond_wait` returns to a caller that is awake. -/
  | resume (t : T)

/-- The caller whose step it is. -/
def LockEvent.caller {T : Type} : LockEvent T → T
  | lockRead t => t
  | unlockRead t => t
  | lockWrite t => t
  | unlockWrite t => t
  | wake t => t
  | resume t => t

namespace RWLock

variable {T : Type}

def init : RWLock T := ⟨0, 0, 0, fun _ => .outside⟩

def isWriting (l : RWLock T) : Bool := 0 < l.writer

/-- `pthread_cond_broadcast` -/
def broadcast (l : RWLock T) : RWLock T := { l with place := fun t => (l.place t).woken }

/-! ## The counters -/

section Counters

variable [Fintype T]

/-- The counters count the callers at the places that they stand for. -/
structure Counted (l : RWLock T) : Prop where
  reader : l.reader = occupied LockPlace.isReading l.place
  writer : l.writer = occupied LockPlace.isWriting l.place
  pending : l.pending = occupied LockPlace.isPending l.place

/-- A writer is alone. Who sleeps has a reason to, and before the reason goes away there is a
broadcast. -/
structure Inv (l : RWLock T) : Prop extends Counted l where
  alone : 0 < l.writer → l.writer = 1 ∧ l.reader = 0
  asleepRead : ∀ t, l.place t = .lockRead true → 0 < l.writer ∨ 0 < l.pending
  asleepWrite : ∀ t, l.place t = .lockWrite true → 0 < l.writer ∨ 0 < l.reader

variable {l : RWLock T} {t : T}

theorem Inv.init : (init : RWLock T).Inv where
  reader := (total_eq_zero fun _ => rfl).symm
  writer := (total_eq_zero fun _ => rfl).symm
  pending := (total_eq_zero fun _ => rfl).symm
  alone h := absurd h (lt_irrefl 0)
  asleepRead t h := by cases h
  asleepWrite t h := by cases h

namespace Counted

theorem reader_nonneg (hCounted : l.Counted) : 0 ≤ l.reader :=
  hCounted.reader ▸ occupied_nonneg _ _

theorem writer_nonneg (hCounted : l.Counted) : 0 ≤ l.writer :=
  hCounted.writer ▸ occupied_nonneg _ _

theorem one_le_reader (hCounted : l.Counted) (ht : l.place t = .reading) : 1 ≤ l.reader := by
  rw [hCounted.reader]
  exact one_le_occupied (t := t) (by rw [ht]; rfl)

theorem one_le_writer (hCounted : l.Counted) (ht : l.place t = .writing) : 1 ≤ l.writer := by
  rw [hCounted.writer]
  exact one_le_occupied (t := t) (by rw [ht]; rfl)

theorem broadcast (hCounted : l.Counted) : l.broadcast.Counted where
  reader := hCounted.reader.trans (occupied_map LockPlace.isReading_woken l.place).symm
  writer := hCounted.writer.trans (occupied_map LockPlace.isWriting_woken l.place).symm
  pending := hCounted.pending.trans (occupied_map LockPlace.isPending_woken l.place).symm

end Counted

/-- Nobody sleeps after a broadcast. -/
theorem Inv.broadcast (hCounted : l.Counted)
    (hAlone : 0 < l.writer → l.writer = 1 ∧ l.reader = 0) : l.broadcast.Inv where
  toCounted := hCounted.broadcast
  alone := hAlone
  asleepRead t h := by
    have hWoken : (l.place t).woken = .lockRead true := h
    cases hPlace : l.place t <;> rw [hPlace] at hWoken <;> cases hWoken
  asleepWrite t h := by
    have hWoken : (l.place t).woken = .lockWrite true := h
    cases hPlace : l.place t <;> rw [hPlace] at hWoken <;> cases hWoken

end Counters

variable [DecidableEq T]

def move (l : RWLock T) (t : T) (x : LockPlace) : RWLock T :=
  { l with place := Function.update l.place t x }

/-- The loop of `lockRead`, from its test on. -/
def loopRead (l : RWLock T) (t : T) : RWLock T :=
  if 0 < l.writer ∨ 0 < l.pending then l.move t (.lockRead true)
  else { l with reader := l.reader + 1 }.move t .reading

/-- The loop of `lockWrite`, from its test on. -/
def loopWrite (l : RWLock T) (t : T) : RWLock T :=
  if 0 < l.writer ∨ 0 < l.reader then l.move t (.lockWrite true)
  else { l with pending := l.pending - 1, writer := l.writer + 1 }.move t .writing

def lockRead (l : RWLock T) (t : T) : RWLock T := (l.move t (.lockRead false)).loopRead t

def unlockRead (l : RWLock T) (t : T) : RWLock T :=
  let l' := { l with reader := l.reader - 1 }.move t .outside
  if l'.reader = 0 then l'.broadcast else l'

def lockWrite (l : RWLock T) (t : T) : RWLock T :=
  ({ l with pending := l.pending + 1 }.move t (.lockWrite false)).loopWrite t

def unlockWrite (l : RWLock T) (t : T) : RWLock T :=
  ({ l with writer := l.writer - 1 }.move t .outside).broadcast

/-- One step of a caller, where it can take it. -/
def step : Machine (RWLock T) (LockEvent T)
  | l, .lockRead t => if l.place t = .outside then some (l.lockRead t) else none
  | l, .unlockRead t => if l.place t = .reading then some (l.unlockRead t) else none
  | l, .lockWrite t => if l.place t = .outside then some (l.lockWrite t) else none
  | l, .unlockWrite t => if l.place t = .writing then some (l.unlockWrite t) else none
  | l, .wake t => if (l.place t).isAsleep then some (l.move t (l.place t).woken) else none
  | l, .resume t =>
    match l.place t with
    | .lockRead false => some (l.loopRead t)
    | .lockWrite false => some (l.loopWrite t)
    | _ => none

/-! ## Where a step leads -/

/-- The steps, with what they need of the place of their caller. -/
inductive Stepped (l : RWLock T) : LockEvent T → RWLock T → Prop
  | lockRead {t : T} (ht : l.place t = .outside) : Stepped l (.lockRead t) (l.lockRead t)
  | unlockRead {t : T} (ht : l.place t = .reading) : Stepped l (.unlockRead t) (l.unlockRead t)
  | lockWrite {t : T} (ht : l.place t = .outside) : Stepped l (.lockWrite t) (l.lockWrite t)
  | unlockWrite {t : T} (ht : l.place t = .writing) :
    Stepped l (.unlockWrite t) (l.unlockWrite t)
  | wake {t : T} (ht : (l.place t).isAsleep = true) :
    Stepped l (.wake t) (l.move t (l.place t).woken)
  | resumeRead {t : T} (ht : l.place t = .lockRead false) : Stepped l (.resume t) (l.loopRead t)
  | resumeWrite {t : T} (ht : l.place t = .lockWrite false) :
    Stepped l (.resume t) (l.loopWrite t)

section Places

variable {l l' : RWLock T} {t u : T} {e : LockEvent T}

theorem stepped_of_step (hStep : step l e = some l') : l.Stepped e l' := by
  cases e with
  | lockRead t =>
    obtain ⟨ht, hEq⟩ := Option.ite_none_right_eq_some.mp hStep
    exact Option.some.inj hEq ▸ .lockRead ht
  | unlockRead t =>
    obtain ⟨ht, hEq⟩ := Option.ite_none_right_eq_some.mp hStep
    exact Option.some.inj hEq ▸ .unlockRead ht
  | lockWrite t =>
    obtain ⟨ht, hEq⟩ := Option.ite_none_right_eq_some.mp hStep
    exact Option.some.inj hEq ▸ .lockWrite ht
  | unlockWrite t =>
    obtain ⟨ht, hEq⟩ := Option.ite_none_right_eq_some.mp hStep
    exact Option.some.inj hEq ▸ .unlockWrite ht
  | wake t =>
    obtain ⟨ht, hEq⟩ := Option.ite_none_right_eq_some.mp hStep
    exact Option.some.inj hEq ▸ .wake ht
  | resume t =>
    simp only [step] at hStep
    split at hStep
    · exact Option.some.inj hStep ▸ .resumeRead ‹_›
    · exact Option.some.inj hStep ▸ .resumeWrite ‹_›
    · cases hStep

theorem move_self (l : RWLock T) (t : T) (x : LockPlace) : (l.move t x).place t = x := by
  show Function.update l.place t x t = x
  exact Function.update_self t x l.place

theorem move_of_ne (l : RWLock T) (x : LockPlace) (hu : u ≠ t) :
    (l.move t x).place u = l.place u := by
  show Function.update l.place t x u = l.place u
  exact Function.update_of_ne hu x l.place

theorem loopRead_side (l : RWLock T) (t : T) : ((l.loopRead t).place t).side = some false := by
  unfold loopRead
  split_ifs <;> rw [move_self] <;> rfl

theorem loopWrite_side (l : RWLock T) (t : T) : ((l.loopWrite t).place t).side = some true := by
  unfold loopWrite
  split_ifs <;> rw [move_self] <;> rfl

theorem loopRead_of_ne (l : RWLock T) (hu : u ≠ t) : (l.loopRead t).place u = l.place u := by
  unfold loopRead
  split_ifs <;> exact move_of_ne _ _ hu

theorem loopWrite_of_ne (l : RWLock T) (hu : u ≠ t) : (l.loopWrite t).place u = l.place u := by
  unfold loopWrite
  split_ifs <;> exact move_of_ne _ _ hu

theorem unlockRead_place (l : RWLock T) (t u : T) :
    (l.unlockRead t).place u = (l.move t .outside).place u ∨
      (l.unlockRead t).place u = ((l.move t .outside).place u).woken := by
  unfold unlockRead
  dsimp only
  split_ifs
  · exact Or.inr rfl
  · exact Or.inl rfl

/-- The side of the lock that the caller of a step has or waits for behind it. -/
def sideAfter (l : RWLock T) : LockEvent T → Option Bool
  | .lockRead _ => some false
  | .lockWrite _ => some true
  | .unlockRead _ => none
  | .unlockWrite _ => none
  | .wake t => (l.place t).side
  | .resume t => (l.place t).side

theorem side_of_step (hStep : step l e = some l') :
    (l'.place e.caller).side = l.sideAfter e := by
  cases stepped_of_step hStep with
  | lockRead ht => exact loopRead_side _ _
  | @unlockRead t ht =>
    rw [LockEvent.caller]
    rcases unlockRead_place l t t with hPlace | hPlace <;> rw [hPlace, move_self] <;> rfl
  | lockWrite ht => exact loopWrite_side _ _
  | @unlockWrite t ht =>
    exact congrArg (fun x => x.woken.side) (move_self { l with writer := l.writer - 1 } t .outside)
  | wake ht =>
    rw [LockEvent.caller, move_self, LockPlace.side_woken]
    rfl
  | resumeRead ht => rw [LockEvent.caller, loopRead_side, sideAfter, ht, LockPlace.side]
  | resumeWrite ht => rw [LockEvent.caller, loopWrite_side, sideAfter, ht, LockPlace.side]

/-- A step wakes the other callers at most. -/
theorem place_of_ne (hStep : step l e = some l') (hu : u ≠ e.caller) :
    l'.place u = l.place u ∨ l'.place u = (l.place u).woken := by
  cases stepped_of_step hStep with
  | lockRead ht => exact Or.inl ((loopRead_of_ne _ hu).trans (move_of_ne l _ hu))
  | @unlockRead t ht =>
    have hOld : (l.move t .outside).place u = l.place u := move_of_ne l _ hu
    exact hOld ▸ unlockRead_place l t u
  | lockWrite ht => exact Or.inl ((loopWrite_of_ne _ hu).trans (move_of_ne _ _ hu))
  | unlockWrite ht => exact Or.inr (congrArg LockPlace.woken (move_of_ne _ _ hu))
  | wake ht => exact Or.inl (move_of_ne l _ hu)
  | resumeRead ht => exact Or.inl (loopRead_of_ne l hu)
  | resumeWrite ht => exact Or.inl (loopWrite_of_ne l hu)

end Places

/-! ## The steps keep the invariant -/

section Steps

variable [Fintype T] {l l' : RWLock T} {t : T} {x : LockPlace}

theorem Counted.moved (hCounted : l.Counted) (hPlace : l'.place = Function.update l.place t x)
    (hReader : l'.reader = l.reader - (if (l.place t).isReading then 1 else 0) +
      if x.isReading then 1 else 0)
    (hWriter : l'.writer = l.writer - (if (l.place t).isWriting then 1 else 0) +
      if x.isWriting then 1 else 0)
    (hPending : l'.pending = l.pending - (if (l.place t).isPending then 1 else 0) +
      if x.isPending then 1 else 0) : l'.Counted where
  reader := by rw [hPlace, occupied_update, ← hCounted.reader, hReader]
  writer := by rw [hPlace, occupied_update, ← hCounted.writer, hWriter]
  pending := by rw [hPlace, occupied_update, ← hCounted.pending, hPending]

namespace Inv

/-- The invariant after a move, when the reasons to sleep do not go away. -/
theorem moved (hInv : l.Inv) (hCounted : l'.Counted)
    (hPlace : l'.place = Function.update l.place t x)
    (hAlone : 0 < l'.writer → l'.writer = 1 ∧ l'.reader = 0)
    (hRead : x = .lockRead true ∨ 0 < l.writer ∨ 0 < l.pending → 0 < l'.writer ∨ 0 < l'.pending)
    (hWrite : x = .lockWrite true ∨ 0 < l.writer ∨ 0 < l.reader →
      0 < l'.writer ∨ 0 < l'.reader) : l'.Inv where
  toCounted := hCounted
  alone := hAlone
  asleepRead u hu := by
    rw [hPlace, Function.update_apply] at hu
    split_ifs at hu
    · exact hRead (Or.inl hu)
    · exact hRead (Or.inr (hInv.asleepRead u hu))
  asleepWrite u hu := by
    rw [hPlace, Function.update_apply] at hu
    split_ifs at hu
    · exact hWrite (Or.inl hu)
    · exact hWrite (Or.inr (hInv.asleepWrite u hu))

/-- A move that counts nowhere and is not to sleep. -/
theorem waking (hInv : l.Inv) (hPlace : l'.place = Function.update l.place t x)
    (hCounters : l'.reader = l.reader ∧ l'.writer = l.writer ∧
      l'.pending = l.pending - (if (l.place t).isPending then 1 else 0) +
        if x.isPending then 1 else 0)
    (hLe : l.pending ≤ l'.pending)
    (ht : (l.place t).isReading = false ∧ (l.place t).isWriting = false)
    (hx : x.isReading = false ∧ x.isWriting = false ∧ x ≠ .lockRead true ∧ x ≠ .lockWrite true) :
    l'.Inv := by
  obtain ⟨hReader, hWriter, hPending⟩ := hCounters
  obtain ⟨hxReading, hxWriting, hxRead, hxWrite⟩ := hx
  refine hInv.moved (hInv.toCounted.moved hPlace ?_ ?_ hPending) hPlace ?_ ?_ ?_
  · simp [hReader, ht.1, hxReading]
  · simp [hWriter, ht.2, hxWriting]
  · rw [hReader, hWriter]
    exact hInv.alone
  · rintro (h | h)
    · exact absurd h hxRead
    · rw [hWriter]
      omega
  · rintro (h | h)
    · exact absurd h hxWrite
    · rwa [hWriter, hReader]

theorem loopRead (hInv : l.Inv) (ht : l.place t = .lockRead false) : (l.loopRead t).Inv := by
  have hReader := hInv.reader_nonneg
  unfold RWLock.loopRead
  split_ifs with hBusy
  · refine hInv.moved (hInv.toCounted.moved rfl ?_ ?_ ?_) rfl hInv.alone (fun _ => hBusy) ?_
    · simp [move, ht, LockPlace.isReading]
    · simp [move, ht, LockPlace.isWriting]
    · simp [move, ht, LockPlace.isPending]
    · rintro (hx | hReason)
      · cases hx
      · exact hReason
  · refine hInv.moved (hInv.toCounted.moved rfl ?_ ?_ ?_) rfl ?_ ?_ ?_
    · simp [move, ht, LockPlace.isReading]
    · simp [move, ht, LockPlace.isWriting]
    · simp [move, ht, LockPlace.isPending]
    · exact fun hWriter => absurd (Or.inl hWriter) hBusy
    · rintro (hx | hReason)
      · cases hx
      · exact hReason
    · exact fun _ => Or.inr (Int.lt_add_one_of_le hReader)

theorem loopWrite (hInv : l.Inv) (ht : l.place t = .lockWrite false) : (l.loopWrite t).Inv := by
  have hReader := hInv.reader_nonneg
  have hWriter := hInv.writer_nonneg
  unfold RWLock.loopWrite
  split_ifs with hBusy
  · refine hInv.moved (hInv.toCounted.moved rfl ?_ ?_ ?_) rfl hInv.alone ?_ (fun _ => hBusy)
    · simp [move, ht, LockPlace.isReading]
    · simp [move, ht, LockPlace.isWriting]
    · simp [move, ht, LockPlace.isPending]
    · rintro (hx | hReason)
      · cases hx
      · exact hReason
  · have hFree : 0 < l.writer + 1 := Int.lt_add_one_of_le hWriter
    refine hInv.moved (hInv.toCounted.moved rfl ?_ ?_ ?_) rfl ?_ (fun _ => Or.inl hFree)
      fun _ => Or.inl hFree
    · simp [move, ht, LockPlace.isReading]
    · simp [move, ht, LockPlace.isWriting]
    · simp [move, ht, LockPlace.isPending]
    · intro _
      change l.writer + 1 = 1 ∧ l.reader = 0
      omega

theorem lockRead (hInv : l.Inv) (ht : l.place t = .outside) : (l.lockRead t).Inv := by
  refine loopRead (hInv.waking rfl ?_ le_rfl ?_ ?_) (Function.update_self _ _ _)
  · simp [move, ht, LockPlace.isPending]
  · simp [ht, LockPlace.isReading, LockPlace.isWriting]
  · simp [LockPlace.isReading, LockPlace.isWriting]

theorem lockWrite (hInv : l.Inv) (ht : l.place t = .outside) : (l.lockWrite t).Inv := by
  refine loopWrite (hInv.waking rfl ?_ (Int.le_add_one le_rfl) ?_ ?_) (Function.update_self _ _ _)
  · simp [move, ht, LockPlace.isPending]
  · simp [ht, LockPlace.isReading, LockPlace.isWriting]
  · simp [LockPlace.isReading, LockPlace.isWriting]

theorem unlockRead (hInv : l.Inv) (ht : l.place t = .reading) : (l.unlockRead t).Inv := by
  have hReader := hInv.one_le_reader ht
  have hNoWriter : ¬ 0 < l.writer := fun hWriter => by
    have := (hInv.alone hWriter).2
    omega
  have hCounted : ({ l with reader := l.reader - 1 }.move t .outside).Counted := by
    refine hInv.toCounted.moved rfl ?_ ?_ ?_
    · simp [move, ht, LockPlace.isReading]
    · simp [move, ht, LockPlace.isWriting]
    · simp [move, ht, LockPlace.isPending]
  unfold RWLock.unlockRead
  dsimp only
  split_ifs with hLast
  · exact broadcast hCounted fun hWriter => absurd hWriter hNoWriter
  · refine hInv.moved hCounted rfl (fun hWriter => absurd hWriter hNoWriter) ?_ fun _ => ?_
    · rintro (hx | hReason)
      · cases hx
      · exact hReason
    · -- The last reader broadcasts, so another one is left here.
      change l.reader - 1 ≠ 0 at hLast
      change 0 < l.writer ∨ 0 < l.reader - 1
      omega

theorem unlockWrite (hInv : l.Inv) (ht : l.place t = .writing) : (l.unlockWrite t).Inv := by
  have hWriter := hInv.one_le_writer ht
  refine broadcast (hInv.toCounted.moved rfl ?_ ?_ ?_) fun h => ?_
  · simp [move, ht, LockPlace.isReading]
  · simp [move, ht, LockPlace.isWriting]
  · simp [move, ht, LockPlace.isPending]
  · change 0 < l.writer - 1 at h
    have := (hInv.alone hWriter).1
    omega

theorem wake (hInv : l.Inv) (ht : (l.place t).isAsleep = true) :
    (l.move t (l.place t).woken).Inv := by
  refine hInv.waking rfl ⟨rfl, rfl, ?_⟩ le_rfl ?_ ?_
  · simp [move, LockPlace.isPending_woken]
  · cases hPlace : l.place t <;> rw [hPlace] at ht <;> first | exact ⟨rfl, rfl⟩ | cases ht
  · cases hPlace : l.place t <;> rw [hPlace] at ht <;>
      first | exact ⟨rfl, rfl, nofun, nofun⟩ | cases ht

theorem step {e : LockEvent T} (hInv : l.Inv) (hStep : RWLock.step l e = some l') : l'.Inv := by
  cases stepped_of_step hStep with
  | lockRead ht => exact hInv.lockRead ht
  | unlockRead ht => exact hInv.unlockRead ht
  | lockWrite ht => exact hInv.lockWrite ht
  | unlockWrite ht => exact hInv.unlockWrite ht
  | wake ht => exact hInv.wake ht
  | resumeRead ht => exact hInv.loopRead ht
  | resumeWrite ht => exact hInv.loopWrite ht

end Inv

end Steps

/-! ## Runs -/

section Runs

variable [Fintype T]

/-- What the lock promises to its callers. -/
structure Excludes (l : RWLock T) : Prop extends Counted l where
  isWriting_iff : l.isWriting = true ↔ ∃ t, l.place t = .writing
  alone : ∀ t, l.place t = .writing →
    ∀ u, l.place u = .writing ∨ l.place u = .reading → u = t
  progress : (∀ t, l.place t ≠ .reading ∧ l.place t ≠ .writing) →
    (∃ t asleep, l.place t = .lockRead asleep ∨ l.place t = .lockWrite asleep) →
    ∃ t l', RWLock.step l (.resume t) = some l' ∧
      (l'.place t = .reading ∨ l'.place t = .writing)

variable {l : RWLock T}

/-- When nobody has the lock, who waits to write is awake, and if nobody does, who waits to
read is. -/
theorem Inv.progress (hInv : l.Inv) (hFree : ∀ t, l.place t ≠ .reading ∧ l.place t ≠ .writing)
    (hWaits : ∃ t asleep, l.place t = .lockRead asleep ∨ l.place t = .lockWrite asleep) :
    ∃ t l', RWLock.step l (.resume t) = some l' ∧
      (l'.place t = .reading ∨ l'.place t = .writing) := by
  have hNoReader : ¬ 0 < l.reader := by
    rw [hInv.reader, occupied_pos_iff]
    rintro ⟨t, ht⟩
    exact (hFree t).1 ((LockPlace.isReading_eq_true_iff _).mp ht)
  have hNoWriter : ¬ 0 < l.writer := by
    rw [hInv.writer, occupied_pos_iff]
    rintro ⟨t, ht⟩
    exact (hFree t).2 ((LockPlace.isWriting_eq_true_iff _).mp ht)
  have hIdle : ¬ (0 < l.writer ∨ 0 < l.reader) := not_or.mpr ⟨hNoWriter, hNoReader⟩
  by_cases hPending : 0 < l.pending
  · rw [hInv.pending, occupied_pos_iff] at hPending
    obtain ⟨t, ht⟩ := hPending
    obtain ⟨asleep, ht⟩ := (LockPlace.isPending_eq_true_iff _).mp ht
    cases asleep with
    | true => exact absurd (hInv.asleepWrite t ht) hIdle
    | false =>
      refine ⟨t, l.loopWrite t, by simp only [RWLock.step, ht], Or.inr ?_⟩
      rw [RWLock.loopWrite, if_neg hIdle]
      exact Function.update_self _ _ _
  · have hCalm : ¬ (0 < l.writer ∨ 0 < l.pending) := not_or.mpr ⟨hNoWriter, hPending⟩
    obtain ⟨t, asleep, ht | ht⟩ := hWaits
    · cases asleep with
      | true => exact absurd (hInv.asleepRead t ht) hCalm
      | false =>
        refine ⟨t, l.loopRead t, by simp only [RWLock.step, ht], Or.inl ?_⟩
        rw [RWLock.loopRead, if_neg hCalm]
        exact Function.update_self _ _ _
    · refine absurd ?_ hPending
      rw [hInv.pending, occupied_pos_iff]
      exact ⟨t, (LockPlace.isPending_eq_true_iff _).mpr ⟨asleep, ht⟩⟩

theorem Inv.excludes (hInv : l.Inv) : l.Excludes where
  toCounted := hInv.toCounted
  isWriting_iff := by
    rw [RWLock.isWriting, decide_eq_true_iff, hInv.writer, occupied_pos_iff]
    exact exists_congr fun t => LockPlace.isWriting_eq_true_iff _
  alone t ht u hu := by
    have hOne := hInv.alone (hInv.one_le_writer ht)
    have hLe : occupied LockPlace.isWriting l.place ≤ 1 := hInv.writer ▸ hOne.1.le
    rcases hu with hu | hu
    · exact eq_of_occupied_le_one hLe (by rw [hu]; rfl) (by rw [ht]; rfl)
    · have := hInv.one_le_reader hu
      omega
  progress := hInv.progress

/-- **Exclusion.** However the steps of any number of callers are interleaved, the counters count
those who read, write and wait to write, nobody reads or writes beside a writer, and no wakeup
is lost: when nobody has the lock and somebody waits, some caller is awake and takes it. -/
theorem exclusion_of_run (es : List (LockEvent T)) :
    RWLock.step.Always (fun _ l => l.Excludes) (RWLock.init : RWLock T) es :=
  (Machine.always_of_step (I := fun _ l => l.Inv) Inv.init
    fun _ _ _ _ hInv hStep => hInv.step hStep).mono fun _ _ hInv => hInv.excludes

end Runs

end RWLock

end LeigodAPM
