import LeigodAPM.WCDB.HandlePool

/-!
# Handles in use and handles counted

* `handles_of_run`: no handle is in use by two calls or in use and free, and while a block of
  `drain` runs no handle is in use or free.
* `aliveHandleCount_of_run`: what the count of a pool counts.
-/

namespace LeigodAPM

open Foundation

namespace PoolPlace

variable {C : Type}

/-- What a call has for itself. -/
def handleWrap : PoolPlace C → Option (HandleWrap C)
  | counting w => some w
  | invoking w => some w
  | holding w => some w
  | pushing w => some w
  | _ => none

def handle (x : PoolPlace C) : Option ℕ := x.handleWrap.map fun w => w.handle

/-- How many handles a call accounts for in the count of the pool, beside the free ones. -/
def weight : PoolPlace C → ℤ
  | invoking _ => 1
  | holding _ => 1
  | flowingBack inserted => if inserted then 0 else 1
  | uncounting => 1
  | fillCounting => -1
  | cleared _ size => size
  | _ => 0

/-- The side of the lock that a call has, or waits for while it is `locking`. -/
def side : PoolPlace C → Option Bool
  | outside => none
  | uncounting => none
  | locking call => some call.isExclusive
  | cleared isExclusive _ => some isExclusive
  | onDrained => some true
  | blockading => some true
  | _ => some false

/-- The call has the lock. -/
def hasLock : PoolPlace C → Bool
  | outside => false
  | uncounting => false
  | locking _ => false
  | _ => true

/-- Behind the `clear` of a `drain`. -/
def isDraining : PoolPlace C → Bool
  | cleared isExclusive _ => isExclusive
  | onDrained => true
  | _ => false

theorem side_of_isDraining {x : PoolPlace C} (hx : x.isDraining = true) :
    x.side = some true ∧ x.hasLock = true := by
  cases x with
  | cleared isExclusive size => exact ⟨congrArg some hx, rfl⟩
  | onDrained => exact ⟨rfl, rfl⟩
  | _ => cases hx

/-- Who has a handle has the read lock. -/
theorem side_of_handle {x : PoolPlace C} {h : ℕ} (hx : x.handle = some h) :
    x.side = some false ∧ x.hasLock = true := by
  cases x with
  | counting w => exact ⟨rfl, rfl⟩
  | invoking w => exact ⟨rfl, rfl⟩
  | holding w => exact ⟨rfl, rfl⟩
  | pushing w => exact ⟨rfl, rfl⟩
  | _ => cases hx

end PoolPlace

namespace HandlePool

variable {T C : Type} {p p' : HandlePool T C} {t : T} {x : PoolPlace C}

/-- The free handles. -/
def free (p : HandlePool T C) : List ℕ := p.handles.values.map fun w => w.handle

/-- Where a call is in the lock follows from where it is in the pool. -/
def Fits (x : PoolPlace C) (y : LockPlace) : Prop :=
  y.side = x.side ∧ (x.hasLock = true → y = .reading ∨ y = .writing)

theorem Fits.of_same {x' : PoolPlace C} {y : LockPlace} (h : Fits x y) (hSide : x'.side = x.side)
    (hHas : x'.hasLock = true → x.hasLock = true) : Fits x' y :=
  ⟨h.1.trans hSide.symm, fun hx => h.2 (hHas hx)⟩

theorem Fits.reading (hSide : x.side = some false) : Fits x .reading :=
  ⟨hSide.symm, fun _ => Or.inl rfl⟩

theorem Fits.writing (hSide : x.side = some true) : Fits x .writing :=
  ⟨hSide.symm, fun _ => Or.inr rfl⟩

theorem Fits.eq_reading {y : LockPlace} (h : Fits x y) (hSide : x.side = some false)
    (hHas : x.hasLock = true) : y = .reading := by
  rcases h.2 hHas with hy | rfl
  · exact hy
  · exact absurd (h.1.trans hSide) nofun

variable [Fintype T]

structure Inv (p : HandlePool T C) : Prop where
  lock : p.lock.Inv
  fits : ∀ t, Fits (p.place t) (p.lock.place t)
  custody : Custody p.opened p.free fun t => (p.place t).handle
  room : p.handles.values.length ≤ p.handles.capacityCap
  count : p.aliveHandleCount =
    p.handles.values.length + total PoolPlace.weight p.place + p.lost
  drained : ∀ t, (p.place t).isDraining = true → p.handles.values = []

namespace Inv

theorem init (cores : ℕ) (configs : C) : (init cores configs : HandlePool T C).Inv where
  lock := .init
  fits _ := ⟨rfl, nofun⟩
  custody := ⟨List.nodup_nil, nofun, nofun, fun _ h => absurd h List.not_mem_nil, nofun⟩
  room := Nat.zero_le cores
  count := by
    have hTotal :
        total PoolPlace.weight (HandlePool.init cores configs : HandlePool T C).place = 0 :=
      total_eq_zero fun _ => rfl
    rw [hTotal]
    rfl
  drained _ h := by cases h

theorem writing (hInv : p.Inv) (hSide : (p.place t).side = some true)
    (hHas : (p.place t).hasLock = true) : p.lock.place t = .writing := by
  have hFits := hInv.fits t
  rcases hFits.2 hHas with hAt | hAt
  · have hEq := hFits.1.trans hSide
    rw [hAt] at hEq
    cases hEq
  · exact hAt

variable [DecidableEq T]

/-- Nobody else has the lock beside a writer. -/
theorem not_reading (hInv : p.Inv) (hSide : (p.place t).side = some true)
    (hHas : (p.place t).hasLock = true) (u : T) : p.lock.place u ≠ .reading := by
  intro hu
  have hAt := hInv.writing hSide hHas
  have hSame := hInv.lock.excludes.alone t hAt u (Or.inr hu)
  rw [hSame, hAt] at hu
  cases hu

theorem eq_of_hasLock (hInv : p.Inv) (hSide : (p.place t).side = some true)
    (hHas : (p.place t).hasLock = true) {u : T} (hu : (p.place u).hasLock = true) : u = t :=
  hInv.lock.excludes.alone t (hInv.writing hSide hHas) u ((hInv.fits u).2 hu).symm

/-- A step of a call that leaves the lock alone. -/
theorem goto (hInv : p.Inv) (hLock : p'.lock = p.lock)
    (hPlace : p'.place = Function.update p.place t x) (hFits : Fits x (p.lock.place t))
    (hCustody : Custody p'.opened p'.free
      (Function.update (fun u => (p.place u).handle) t x.handle))
    (hRoom : p'.handles.values.length ≤ p'.handles.capacityCap)
    (hCount : p'.aliveHandleCount - p'.handles.values.length - p'.lost - x.weight =
      p.aliveHandleCount - p.handles.values.length - p.lost - (p.place t).weight)
    (hDraining : x.isDraining = true → p'.handles.values = [])
    (hValues : (p.handles.values = [] → p'.handles.values = []) ∨
      p.lock.place t = .reading) : p'.Inv where
  lock := hLock ▸ hInv.lock
  fits u := by
    rw [hPlace, hLock, Function.update_apply]
    split_ifs with hEq
    · exact hEq ▸ hFits
    · exact hInv.fits u
  custody := by
    have hHandle : (fun u => (p'.place u).handle) =
        Function.update (fun u => (p.place u).handle) t x.handle := by
      rw [hPlace]
      exact funext fun u => Function.apply_update (fun _ => PoolPlace.handle) p.place t x u
    exact hHandle ▸ hCustody
  room := hRoom
  count := by
    have hOld := hInv.count
    rw [hPlace, total_update]
    omega
  drained u hu := by
    rw [hPlace, Function.update_apply] at hu
    split_ifs at hu with hEq
    · exact hDraining hu
    · rcases hValues with hKeep | hReading
      · exact hKeep (hInv.drained u hu)
      · obtain ⟨hSide, hHas⟩ := PoolPlace.side_of_isDraining hu
        exact absurd hReading (hInv.not_reading hSide hHas t)

/-- A step of a call in the lock. -/
theorem locked {e : LockEvent T} (hInv : p.Inv) (hStep : p.locked e t x = some p')
    (hCaller : e.caller = t) (hSide : x.side = p.lock.sideAfter e) (hHas : x.hasLock = true →
      ∀ l, RWLock.step p.lock e = some l → l.place t = .reading ∨ l.place t = .writing)
    (hHandle : x.handle = (p.place t).handle) (hWeight : x.weight = (p.place t).weight)
    (hDraining : x.isDraining = true → (p.place t).isDraining = true) : p'.Inv := by
  obtain ⟨l, hLock, rfl⟩ := Option.map_eq_some_iff.mp hStep
  have hCustody := hInv.custody
  refine ⟨hInv.lock.step hLock, fun u => ?_, ?_, hInv.room, ?_, fun u hu => ?_⟩
  · show Fits (Function.update p.place t x u) (l.place u)
    rw [Function.update_apply]
    split_ifs with hEq
    · subst hEq
      exact ⟨hCaller ▸ (RWLock.side_of_step hLock).trans hSide.symm, fun hx => hHas hx l hLock⟩
    · have hFits := hInv.fits u
      rcases RWLock.place_of_ne hLock (hCaller ▸ hEq) with hOther | hOther
      · rwa [hOther]
      · rw [hOther]
        refine ⟨(LockPlace.side_woken _).trans hFits.1, fun hx => ?_⟩
        rcases hFits.2 hx with hAt | hAt
        · exact Or.inl (congrArg LockPlace.woken hAt)
        · exact Or.inr (congrArg LockPlace.woken hAt)
  · have hSame : (fun u => (Function.update p.place t x u).handle) =
        fun u => (p.place u).handle := by
      funext u
      rw [Function.update_apply]
      split_ifs with hEq
      · rw [hHandle, hEq]
      · rfl
    show Custody p.opened p.free fun u => (Function.update p.place t x u).handle
    rw [hSame]
    exact hCustody
  · show p.aliveHandleCount =
      p.handles.values.length + total PoolPlace.weight (Function.update p.place t x) + p.lost
    rw [total_update, hWeight, sub_add_cancel]
    exact hInv.count
  · have hOld : (p.place u).isDraining = true := by
      change (Function.update p.place t x u).isDraining = true at hu
      rw [Function.update_apply] at hu
      split_ifs at hu with hEq
      · exact hEq ▸ hDraining hu
      · exact hu
    exact hInv.drained u hOld

/-! Steps in the lock from a place `y`, by what they do to the handles. -/

section Steps

variable {y : PoolPlace C}

/-- Nothing, or the count changes. -/
theorem moves (hInv : p.Inv) (hAt : p.place t = y) (n : ℤ) (hFits : Fits x (p.lock.place t))
    (hHandle : x.handle = none ∨ x.handle = y.handle)
    (hCount : n - x.weight = p.aliveHandleCount - y.weight)
    (hDraining : x.isDraining = true → y.isDraining = true) :
    ({ p with aliveHandleCount := n }.goto t x).Inv := by
  subst hAt
  refine hInv.goto rfl rfl hFits ?_ hInv.room ?_ (fun hx => hInv.drained t (hDraining hx))
    (Or.inl id)
  · rcases hHandle with hNone | hSame
    · rw [hNone]
      exact hInv.custody.drop
    · rw [hSame, Function.update_eq_self]
      exact hInv.custody
  · show n - p.handles.values.length - p.lost - x.weight = _
    omega

/-- A handle is opened. -/
theorem opens (hInv : p.Inv) (hAt : p.place t = y) (hFits : Fits x (p.lock.place t))
    (hHandle : x.handle = some p.opened) (hWeight : x.weight = y.weight)
    (hDraining : x.isDraining = false) :
    ({ p with opened := p.opened + 1 }.goto t x).Inv := by
  subst hAt
  refine hInv.goto rfl rfl hFits ?_ hInv.room (by rw [hWeight]; rfl) (fun hx => ?_) (Or.inl id)
  · rw [hHandle]
    exact hInv.custody.make
  · rw [hDraining] at hx
    cases hx

/-- A free handle is taken. -/
theorem takes {w : HandleWrap C} {rest : List (HandleWrap C)} (hInv : p.Inv)
    (hAt : p.place t = y) (hFits : Fits x (p.lock.place t))
    (hValues : p.handles.values = w :: rest) (hHandle : x.handle = some w.handle)
    (hWeight : x.weight = y.weight + 1) (hDraining : x.isDraining = false) :
    ({ p with handles := { p.handles with values := rest } }.goto t x).Inv := by
  subst hAt
  have hFree : p.free = w.handle :: rest.map fun w => w.handle := by
    rw [free, hValues, List.map_cons]
  have hLength : p.handles.values.length = rest.length + 1 := by
    rw [hValues, List.length_cons]
  have hRoom := hInv.room
  refine hInv.goto rfl rfl hFits ?_ ?_ ?_ (fun hx => ?_) (Or.inl fun hNil => ?_)
  · rw [hHandle]
    exact (hFree ▸ hInv.custody).take
  · show rest.length ≤ p.handles.capacityCap
    omega
  · show p.aliveHandleCount - rest.length - p.lost - x.weight = _
    omega
  · rw [hDraining] at hx
    cases hx
  · rw [hValues] at hNil
    cases hNil

/-- A handle is put into the list, which has room. -/
theorem gives {w : HandleWrap C} (hInv : p.Inv) (hAt : p.place t = y)
    (hFits : Fits x (p.lock.place t)) (hReading : p.lock.place t = .reading)
    (hRoom : p.handles.values.length < p.handles.capacityCap) (hHeld : y.handle = some w.handle)
    (hHandle : x.handle = none) (hWeight : x.weight = y.weight - 1)
    (hDraining : x.isDraining = false) :
    ({ p with handles := { p.handles with values := w :: p.handles.values } }.goto t x).Inv := by
  subst hAt
  refine hInv.goto rfl rfl hFits ?_ hRoom ?_ (fun hx => ?_) (Or.inr hReading)
  · rw [hHandle]
    exact hInv.custody.give hHeld
  · show p.aliveHandleCount - (p.handles.values.length + 1 : ℕ) - p.lost - x.weight = _
    omega
  · rw [hDraining] at hx
    cases hx

/-- The list is cleared. -/
theorem clears {isExclusive : Bool} (hInv : p.Inv) (hAt : p.place t = y)
    (hFits : Fits (.cleared isExclusive p.handles.values.length : PoolPlace C) (p.lock.place t))
    (hWeight : y.weight = 0) :
    ({ p with handles := { p.handles with values := [] } }.goto t
      (.cleared isExclusive p.handles.values.length)).Inv := by
  subst hAt
  refine hInv.goto rfl rfl hFits hInv.custody.clear.drop (Nat.zero_le _) ?_ (fun _ => rfl)
    (Or.inl fun _ => rfl)
  show p.aliveHandleCount - (0 : ℕ) - p.lost - (p.handles.values.length : ℤ) = _
  omega

/-- A counted handle is lost. -/
theorem loses (hInv : p.Inv) (hAt : p.place t = y) (hFits : Fits x (p.lock.place t))
    (hHandle : x.handle = none) (hWeight : x.weight = y.weight - 1)
    (hDraining : x.isDraining = false) : ({ p with lost := p.lost + 1 }.goto t x).Inv := by
  subst hAt
  refine hInv.goto rfl rfl hFits ?_ hInv.room ?_ (fun hx => ?_) (Or.inl id)
  · rw [hHandle]
    exact hInv.custody.drop
  · show p.aliveHandleCount - p.handles.values.length - (p.lost + 1 : ℕ) - x.weight = _
    omega
  · rw [hDraining] at hx
    cases hx

end Steps

theorem enter {call : PoolCall} (hInv : p.Inv) (hAt : p.place t = .locking call)
    (hStep : p.enter t call (p.lock.place t) = some p') : p'.Inv := by
  cases hLock : p.lock.place t with
  | reading =>
    have hFits (x : PoolPlace C) (hx : x.side = some false) : Fits x (p.lock.place t) :=
      hLock ▸ Fits.reading hx
    rw [hLock] at hStep
    cases call with
    | flowOut =>
      cases hValues : p.handles.values with
      | nil =>
        simp only [HandlePool.enter, ConcurrentList.popBack, hValues, List.head?_nil] at hStep
        obtain rfl := Option.some.inj hStep
        exact hInv.moves hAt _ (hFits _ rfl) (Or.inl rfl) rfl nofun
      | cons w rest =>
        simp only [HandlePool.enter, ConcurrentList.popBack, hValues, List.head?_cons,
          List.tail_cons] at hStep
        obtain rfl := Option.some.inj hStep
        exact hInv.takes hAt (hFits _ rfl) hValues rfl rfl rfl
    | fillOne =>
      obtain rfl := Option.some.inj hStep
      exact hInv.moves hAt _ (hFits _ rfl) (Or.inl rfl) rfl nofun
    | purgeFreeHandles =>
      obtain rfl := Option.some.inj hStep
      exact hInv.clears hAt (hFits _ rfl) rfl
    | drain => cases hStep
    | blockade => cases hStep
  | writing =>
    have hFits (x : PoolPlace C) (hx : x.side = some true) : Fits x (p.lock.place t) :=
      hLock ▸ Fits.writing hx
    rw [hLock] at hStep
    cases call with
    | drain =>
      obtain rfl := Option.some.inj hStep
      exact hInv.clears hAt (hFits _ rfl) rfl
    | blockade =>
      obtain rfl := Option.some.inj hStep
      exact hInv.moves hAt _ (hFits _ rfl) (Or.inl rfl) rfl nofun
    | _ => cases hStep
  | _ =>
    rw [hLock] at hStep
    cases call <;> cases hStep

theorem invoke [DecidableEq C] {w : HandleWrap C} (hInv : p.Inv) (hAt : p.place t = .invoking w)
    (succeeds : Bool) : (p.invoke t w succeeds).Inv := by
  have hFits (x : PoolPlace C) (hx : x.side = some false) : Fits x (p.lock.place t) :=
    (hInv.fits t).of_same (hAt ▸ hx) fun _ => hAt ▸ rfl
  unfold HandlePool.invoke
  split_ifs
  · exact hInv.moves hAt _ (hFits _ rfl) (Or.inr rfl) rfl nofun
  · exact hInv.moves hAt _ (hFits _ rfl) (Or.inr rfl) rfl nofun
  · exact hInv.loses hAt (hFits _ rfl) rfl rfl rfl

/-- A handle goes back into the list, if there is room. -/
theorem pushBack {w : HandleWrap C} {y yes no : PoolPlace C} (hInv : p.Inv)
    (hAt : p.place t = y) (hSide : y.side = some false) (hHas : y.hasLock = true)
    (hHeld : y.handle = some w.handle)
    (hYes : yes.side = some false ∧ yes.handle = none ∧ yes.weight = y.weight - 1 ∧
      yes.isDraining = false)
    (hNo : no.side = some false ∧ no.handle = none ∧ no.weight = y.weight ∧
      no.isDraining = false) :
    ({ p with handles := (p.handles.pushBack w).1 }.goto t
      (if (p.handles.pushBack w).2 then yes else no)).Inv := by
  have hReading : p.lock.place t = .reading :=
    (hInv.fits t).eq_reading (hAt ▸ hSide) (hAt ▸ hHas)
  by_cases hRoom : p.handles.values.length < p.handles.capacityCap
  · obtain ⟨hSide', hHandle, hWeight, hDraining⟩ := hYes
    simp only [ConcurrentList.pushBack, if_pos hRoom, if_true]
    exact hInv.gives hAt (hReading ▸ Fits.reading hSide') hReading hRoom hHeld hHandle hWeight
      hDraining
  · obtain ⟨hSide', hHandle, hWeight, hDraining⟩ := hNo
    simp only [ConcurrentList.pushBack, if_neg hRoom, Bool.false_eq_true, if_false]
    refine hInv.moves hAt _ (hReading ▸ Fits.reading hSide') (Or.inl hHandle) (by rw [hWeight]) ?_
    rw [hDraining]
    exact nofun

theorem next [DecidableEq C] {succeeds : Bool} (hInv : p.Inv)
    (hStep : p.next t succeeds = some p') : p'.Inv := by
  have hFits (x : PoolPlace C) (hSide : x.side = (p.place t).side)
      (hHas : x.hasLock = true → (p.place t).hasLock = true) : Fits x (p.lock.place t) :=
    (hInv.fits t).of_same hSide hHas
  unfold HandlePool.next at hStep
  cases hAt : p.place t with
  | outside =>
    simp only [hAt] at hStep
    cases hStep
  | locking call =>
    simp only [hAt] at hStep
    exact hInv.enter hAt hStep
  | checking =>
    simp only [hAt] at hStep hFits
    obtain rfl := Option.some.inj hStep
    split_ifs
    · exact hInv.moves hAt _ (hFits _ rfl fun _ => rfl) (Or.inl rfl) rfl nofun
    · exact hInv.moves hAt _ (hFits _ rfl fun _ => rfl) (Or.inl rfl) rfl nofun
  | generating =>
    simp only [hAt] at hStep hFits
    split_ifs at hStep <;> obtain rfl := Option.some.inj hStep
    · exact hInv.opens hAt (hFits _ rfl fun _ => rfl) rfl rfl rfl
    · exact hInv.moves hAt _ (hFits _ rfl fun _ => rfl) (Or.inl rfl) rfl nofun
  | counting w =>
    simp only [hAt] at hStep hFits
    obtain rfl := Option.some.inj hStep
    refine hInv.moves hAt _ (hFits _ rfl fun _ => rfl) (Or.inr rfl) ?_ nofun
    show p.aliveHandleCount + 1 - 1 = p.aliveHandleCount - 0
    omega
  | invoking w =>
    simp only [hAt] at hStep
    obtain rfl := Option.some.inj hStep
    exact hInv.invoke hAt succeeds
  | holding w =>
    simp only [hAt] at hStep
    obtain rfl := Option.some.inj hStep
    have hBool (b : Bool) : (.flowingBack b : PoolPlace C) =
        if b then .flowingBack true else .flowingBack false := by
      cases b <;> rfl
    rw [hBool]
    exact hInv.pushBack hAt rfl rfl rfl ⟨rfl, rfl, rfl, rfl⟩ ⟨rfl, rfl, rfl, rfl⟩
  | flowingBack inserted =>
    simp only [hAt] at hStep
    cases inserted with
    | true =>
      exact hInv.locked hStep rfl rfl nofun (hAt ▸ rfl) (hAt ▸ rfl) nofun
    | false =>
      exact hInv.locked hStep rfl rfl nofun (hAt ▸ rfl) (hAt ▸ rfl) nofun
  | uncounting =>
    simp only [hAt] at hStep hFits
    obtain rfl := Option.some.inj hStep
    refine hInv.moves hAt _ (hFits _ rfl nofun) (Or.inl rfl) ?_ nofun
    show p.aliveHandleCount - 1 - 0 = p.aliveHandleCount - 1
    omega
  | filling =>
    simp only [hAt] at hStep hFits
    split_ifs at hStep <;> obtain rfl := Option.some.inj hStep
    · exact hInv.opens hAt (hFits _ rfl fun _ => rfl) rfl rfl rfl
    · exact hInv.moves hAt _ (hFits _ rfl fun _ => rfl) (Or.inl rfl) rfl nofun
  | pushing w =>
    simp only [hAt] at hStep
    obtain rfl := Option.some.inj hStep
    exact hInv.pushBack hAt rfl rfl rfl ⟨rfl, rfl, rfl, rfl⟩ ⟨rfl, rfl, rfl, rfl⟩
  | fillCounting =>
    simp only [hAt] at hStep hFits
    obtain rfl := Option.some.inj hStep
    refine hInv.moves hAt _ (hFits _ rfl fun _ => rfl) (Or.inl rfl) ?_ nofun
    show p.aliveHandleCount + 1 - 0 = p.aliveHandleCount - -1
    omega
  | cleared isExclusive size =>
    simp only [hAt] at hStep hFits
    obtain rfl := Option.some.inj hStep
    have hSize : p.aliveHandleCount - size - 0 = p.aliveHandleCount - size := sub_zero _
    cases isExclusive with
    | true => exact hInv.moves hAt _ (hFits _ rfl fun _ => rfl) (Or.inl rfl) hSize fun _ => rfl
    | false => exact hInv.moves hAt _ (hFits _ rfl fun _ => rfl) (Or.inl rfl) hSize nofun
  | onDrained =>
    simp only [hAt] at hStep
    exact hInv.locked hStep rfl rfl nofun (hAt ▸ rfl) (hAt ▸ rfl) nofun
  | blockading =>
    simp only [hAt] at hStep
    exact hInv.locked hStep rfl rfl nofun (hAt ▸ rfl) (hAt ▸ rfl) nofun
  | leaving =>
    simp only [hAt] at hStep
    exact hInv.locked hStep rfl rfl nofun (hAt ▸ rfl) (hAt ▸ rfl) nofun

theorem step [DecidableEq C] {e : PoolEvent T C} (hInv : p.Inv)
    (hStep : HandlePool.step p e = some p') : p'.Inv := by
  cases e with
  | call t call =>
    simp only [HandlePool.step] at hStep
    split at hStep
    · rename_i hAt
      have hSide : (.locking call : PoolPlace C).side =
          p.lock.sideAfter (if call.isExclusive then .lockWrite t else .lockRead t) := by
        cases call <;> rfl
      have hCaller : (if call.isExclusive then .lockWrite t else .lockRead t :
          LockEvent T).caller = t := by
        cases call <;> rfl
      exact hInv.locked hStep hCaller hSide nofun (hAt ▸ rfl) (hAt ▸ rfl) nofun
    · cases hStep
  | wake t =>
    refine hInv.locked hStep rfl (hInv.fits t).1.symm (fun hx l hLock => ?_) rfl rfl id
    cases RWLock.stepped_of_step hLock with
    | wake ht => rcases (hInv.fits t).2 hx with hAt | hAt <;> rw [hAt] at ht <;> cases ht
  | resume t =>
    refine hInv.locked hStep rfl (hInv.fits t).1.symm (fun hx l hLock => ?_) rfl rfl id
    cases RWLock.stepped_of_step hLock with
    | resumeRead ht => rcases (hInv.fits t).2 hx with hAt | hAt <;> rw [hAt] at ht <;> cases ht
    | resumeWrite ht => rcases (hInv.fits t).2 hx with hAt | hAt <;> rw [hAt] at ht <;> cases ht
  | step t succeeds => exact hInv.next hStep
  | setConfigs configs =>
    obtain rfl := Option.some.inj hStep
    exact ⟨hInv.lock, hInv.fits, hInv.custody, hInv.room, hInv.count, hInv.drained⟩

end Inv

/-! ## Runs -/

section Runs

variable [DecidableEq T]

/-- What a pool promises about its handles. -/
structure Keeps (p : HandlePool T C) : Prop where
  free_le : p.free.length ≤ p.handles.capacityCap
  nodup : p.free.Nodup
  apart : ∀ t h, (p.place t).handle = some h → h ∉ p.free
  unique : ∀ t u h, (p.place t).handle = some h → (p.place u).handle = some h → t = u
  alone : ∀ t, p.place t = .onDrained ∨ p.place t = .blockading →
    ∀ u, (p.place u).handle = none
  drained : ∀ t, p.place t = .onDrained → p.free = []

theorem Inv.keeps (hInv : p.Inv) : p.Keeps where
  free_le := by
    rw [free, List.length_map]
    exact hInv.room
  nodup := hInv.custody.nodup
  apart := hInv.custody.apart
  unique := hInv.custody.unique
  alone t ht u := by
    cases hHandle : (p.place u).handle with
    | none => rfl
    | some h =>
      obtain ⟨hSide, hHas⟩ := PoolPlace.side_of_handle hHandle
      have hReading := (hInv.fits u).eq_reading hSide hHas
      rcases ht with ht | ht
      · exact absurd hReading (hInv.not_reading (t := t) (ht ▸ rfl) (ht ▸ rfl) u)
      · exact absurd hReading (hInv.not_reading (t := t) (ht ▸ rfl) (ht ▸ rfl) u)
  drained t ht := by
    rw [free, hInv.drained t (ht ▸ rfl)]
    rfl

variable [DecidableEq C]

theorem always_inv (cores : ℕ) (configs : C) (es : List (PoolEvent T C)) :
    step.Always (fun _ p => p.Inv) (init cores configs) es :=
  Machine.always_of_step (Inv.init cores configs) fun _ _ _ _ hInv hStep => hInv.step hStep

/-- **Handles in use.** However any number of calls on a pool are interleaved, no handle is in
use by two of them, or in use and free, and the free ones fit in the list. While the block of a
`drain` runs no handle is free, and no call has one, as during a blockade. -/
theorem handles_of_run (cores : ℕ) (configs : C) (es : List (PoolEvent T C)) :
    step.Always (fun _ p => p.Keeps) (init cores configs) es :=
  (always_inv cores configs es).mono fun _ _ hInv => hInv.keeps

/-- A `drain` waits until a handle flows back, and its block finds an empty pool. -/
example : ((step.run (init 1 () : HandlePool Bool Unit) [.call true .flowOut, .step true true,
    .step true true, .step true true, .step true true, .step true true, .call false .drain,
    .step true true, .step true true, .resume false, .step false true, .step false true]).map
      fun p => (p.place false matches .onDrained, p.isDrained, p.free)) =
    some (true, true, []) := by
  decide

end Runs

/-! ## The count -/

/-- The handle is counted and the call uses it. -/
def isCounted : PoolPlace C → Bool
  | .invoking _ => true
  | .holding _ => true
  | _ => false

/-- The handle found no room in the list and is still counted. -/
def isReturned : PoolPlace C → Bool
  | .flowingBack inserted => !inserted
  | .uncounting => true
  | _ => false

/-- The handle is in the list and is not counted yet. -/
def isFilling : PoolPlace C → Bool
  | .fillCounting => true
  | _ => false

/-- How many handles are cleared away and still counted. -/
def clearedSize : PoolPlace C → ℤ
  | .cleared _ size => size
  | _ => 0

theorem weight_add (x : PoolPlace C) : x.weight + (if isFilling x then 1 else 0) =
    (if isCounted x then 1 else 0) + (if isReturned x then 1 else 0) + clearedSize x := by
  cases x with
  | flowingBack inserted => cases inserted <;> rfl
  | cleared isExclusive size =>
    show (size : ℤ) + 0 = 0 + 0 + size
    omega
  | _ => rfl

/-- What the count of a pool counts. -/
structure Counts (p : HandlePool T C) : Prop where
  count : p.aliveHandleCount + occupied isFilling p.place =
    p.free.length + occupied isCounted p.place + occupied isReturned p.place +
      total clearedSize p.place + p.lost
  drained : ∀ t, p.place t = .onDrained →
    (p.isDrained = true ↔ p.lost = 0 ∧ ∀ u, p.place u ≠ .uncounting)
  idle : (∀ t, p.place t = .outside) → p.aliveHandleCount = p.free.length + p.lost

/-- While the block of a `drain` runs, only returned handles are counted. -/
theorem Inv.count_drained [DecidableEq T] (hInv : p.Inv) (ht : p.place t = .onDrained) :
    p.isDrained = true ↔ p.lost = 0 ∧ ∀ u, p.place u ≠ .uncounting := by
  have hPlace (u : T) : p.place u = .onDrained ∨ (p.place u).hasLock = false := by
    by_cases hu : (p.place u).hasLock = true
    · rw [hInv.eq_of_hasLock (t := t) (ht ▸ rfl) (ht ▸ rfl) hu]
      exact Or.inl ht
    · exact Or.inr (Bool.eq_false_of_not_eq_true hu)
  have hWeight (u : T) : (p.place u).weight = if isReturned (p.place u) then 1 else 0 := by
    rcases hPlace u with hu | hu
    · rw [hu]
      rfl
    · cases hAt : p.place u <;> rw [hAt] at hu <;> first | rfl | cases hu
  have hReturned (u : T) : isReturned (p.place u) = false ↔ p.place u ≠ .uncounting := by
    rcases hPlace u with hu | hu
    · rw [hu]
      exact iff_of_true rfl nofun
    · cases hAt : p.place u <;> rw [hAt] at hu <;>
        first | exact iff_of_true rfl nofun | cases hu
      exact iff_of_false nofun fun h => h rfl
  have hCount := hInv.count
  have hNonneg := occupied_nonneg isReturned p.place
  have hTotal : total PoolPlace.weight p.place = occupied isReturned p.place :=
    total_congr hWeight
  rw [hInv.drained t (ht ▸ rfl), hTotal] at hCount
  change p.aliveHandleCount = (0 : ℕ) + occupied isReturned p.place + p.lost at hCount
  rw [isDrained, decide_eq_true_iff, ← forall_congr' hReturned, ← occupied_eq_zero_iff]
  omega

theorem Inv.counts [DecidableEq T] (hInv : p.Inv) : p.Counts where
  count := by
    have hWeight : total PoolPlace.weight p.place + occupied isFilling p.place =
        occupied isCounted p.place + occupied isReturned p.place + total clearedSize p.place := by
      rw [occupied, occupied, occupied, ← total_add, ← total_add, ← total_add]
      exact total_congr fun t => weight_add (p.place t)
    rw [free, List.length_map, hInv.count]
    omega
  drained _ ht := hInv.count_drained ht
  idle hIdle := by
    have hTotal : total PoolPlace.weight p.place = 0 :=
      total_eq_zero fun t => by rw [hIdle t]; rfl
    rw [free, List.length_map, hInv.count, hTotal, add_zero]

/-- **The count of a pool.** However the calls are interleaved, the count is the number of the
handles that are free, in use, returned to a full list and cleared away, and of those that were
lost, without one that `fillOne` is about to count. So when the block of a `drain` runs, the
pool is drained exactly if no handle was ever lost and no call is about to uncount one. -/
theorem aliveHandleCount_of_run [DecidableEq T] [DecidableEq C] (cores : ℕ) (configs : C)
    (es : List (PoolEvent T C)) :
    step.Always (fun _ p => p.Counts) (init cores configs) es :=
  (always_inv cores configs es).mono fun _ _ hInv => hInv.counts

end HandlePool

end LeigodAPM
