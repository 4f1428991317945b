import LeigodAPM.Foundation.Custody
import LeigodAPM.WCDB.RWLock

/-!
# The handle pool

All accesses to one database file go through a `HandlePool`. A call takes a free handle out of
the pool or opens a new one, uses it, and puts it back; each call has its handle under the read
lock. `drain` takes the write lock, throws the free handles away and runs a block, in which
`NNDBManager` removes the files.

A step of a call runs from one access to something shared to the next one.
-/

namespace LeigodAPM

open Foundation

/-- `ConcurrentList`, whose methods hold a spin lock; the last value comes first here. -/
structure ConcurrentList (Value : Type) where
  values : List Value
  capacityCap : ℕ

namespace ConcurrentList

variable {Value : Type} (l : ConcurrentList Value)

/-- The list afterwards and whether the value was put in. -/
def pushBack (value : Value) : ConcurrentList Value × Bool :=
  if l.values.length < l.capacityCap then ({ l with values := value :: l.values }, true)
  else (l, false)

def popBack : Option Value × ConcurrentList Value :=
  (l.values.head?, { l with values := l.values.tail })

/-- How many values there were, and the empty list. -/
def clear : ℕ × ConcurrentList Value := (l.values.length, { l with values := [] })

end ConcurrentList

/-- A handle, which is an object, so it has a number, and the configurations it was given. -/
structure HandleWrap (C : Type) where
  handle : ℕ
  configs : C

inductive PoolCall
  | flowOut
  | fillOne
  | drain
  | purgeFreeHandles
  | blockade
  deriving DecidableEq

/-- The calls that take the write lock. -/
def PoolCall.isExclusive : PoolCall → Bool
  | drain => true
  | blockade => true
  | _ => false

/-- Where a call is. -/
inductive PoolPlace (C : Type)
  | outside
  /-- In `lockRead` or `lockWrite`, or just behind it. -/
  | locking (call : PoolCall)
  /-- `flowOut`: the list was empty. -/
  | checking
  | generating
  | counting (w : HandleWrap C)
  | invoking (w : HandleWrap C)
  /-- The handle is in use, until its `RecyclableHandle` goes away. -/
  | holding (w : HandleWrap C)
  /-- `flowBack`: behind `pushBack`, before `unlockRead`. -/
  | flowingBack (inserted : Bool)
  /-- `flowBack`: the handle found no room. -/
  | uncounting
  /-- `fillOne`: before `generate`, before `pushBack` and before the count. -/
  | filling
  | pushing (w : HandleWrap C)
  | fillCounting
  /-- `drain` and `purgeFreeHandles`: the list is cleared, its size not yet subtracted. -/
  | cleared (isExclusive : Bool) (size : ℕ)
  /-- `drain`: `onDrained` runs. -/
  | onDrained
  | blockading
  /-- The call returns or throws, and the read lock is still to be unlocked. -/
  | leaving

structure HandlePool (T C : Type) where
  lock : RWLock T
  handles : ConcurrentList (HandleWrap C)
  aliveHandleCount : ℤ
  configs : C
  maxConcurrency : ℤ
  /-- How many handles were opened so far. -/
  opened : ℕ
  /-- How many handles were counted and then lost, because giving them new configurations
  threw. -/
  lost : ℕ
  place : T → PoolPlace C

/-- What happens to a pool. In a step `succeeds` says whether the call in it that may throw
returns. -/
inductive PoolEvent (T C : Type)
  | call (t : T) (call : PoolCall)
  | wake (t : T)
  | resume (t : T)
  | step (t : T) (succeeds : Bool)
  | setConfigs (configs : C)

namespace HandlePool

variable {T C : Type}

/-- A new pool on a device with `cores` processors. -/
def init (cores : ℕ) (configs : C) : HandlePool T C where
  lock := .init
  handles := ⟨[], cores⟩
  aliveHandleCount := 0
  configs := configs
  maxConcurrency := max cores 64
  opened := 0
  lost := 0
  place _ := .outside

def isDrained (p : HandlePool T C) : Bool := p.aliveHandleCount = 0

def isBlockaded (p : HandlePool T C) : Bool := p.lock.isWriting

/-- `isOpened` of a database with the pool. -/
def isOpened (p : HandlePool T C) : Bool := !p.isDrained

/-- `removeFiles` warns that the database is open. -/
def removeFilesWarns (p : HandlePool T C) : Bool := !p.isBlockaded || p.isOpened

/-- The handle that `generate` opens and configures. -/
def generated (p : HandlePool T C) : HandleWrap C := ⟨p.opened, p.configs⟩

variable [DecidableEq T]

def goto (p : HandlePool T C) (t : T) (x : PoolPlace C) : HandlePool T C :=
  { p with place := Function.update p.place t x }

/-- A step of the lock, with which the call gets to `x`. -/
def locked (p : HandlePool T C) (e : LockEvent T) (t : T) (x : PoolPlace C) :
    Option (HandlePool T C) :=
  (RWLock.step p.lock e).map fun l => { p with lock := l }.goto t x

/-- The first statement behind the lock. -/
def enter (p : HandlePool T C) (t : T) : PoolCall → LockPlace → Option (HandlePool T C)
  | .flowOut, .reading =>
    let (handleWrap, handles) := p.handles.popBack
    match handleWrap with
    | none => some (p.goto t .checking)
    | some w => some ({ p with handles := handles }.goto t (.invoking w))
  | .fillOne, .reading => some (p.goto t .filling)
  | .purgeFreeHandles, .reading =>
    let (size, handles) := p.handles.clear
    some ({ p with handles := handles }.goto t (.cleared false size))
  | .drain, .writing =>
    let (size, handles) := p.handles.clear
    some ({ p with handles := handles }.goto t (.cleared true size))
  | .blockade, .writing => some (p.goto t .blockading)
  | _, _ => none

/-- `invoke` on a handle that `flowOut` has: new configurations are given to it, if need be. -/
def invoke (p : HandlePool T C) [DecidableEq C] (t : T) (w : HandleWrap C) (succeeds : Bool) :
    HandlePool T C :=
  if p.configs = w.configs then p.goto t (.holding w)
  else if succeeds then p.goto t (.holding { w with configs := p.configs })
  else { p with lost := p.lost + 1 }.goto t .leaving

/-- One step of a call, unless it waits for the lock. -/
def next (p : HandlePool T C) [DecidableEq C] (t : T) (succeeds : Bool) :
    Option (HandlePool T C) :=
  match p.place t with
  | .outside => none
  | .locking call => p.enter t call (p.lock.place t)
  | .checking =>
    some (p.goto t (if p.aliveHandleCount < p.maxConcurrency then .generating else .leaving))
  | .generating =>
    if succeeds then some ({ p with opened := p.opened + 1 }.goto t (.counting p.generated))
    else some (p.goto t .leaving)
  | .counting w =>
    some ({ p with aliveHandleCount := p.aliveHandleCount + 1 }.goto t (.invoking w))
  | .invoking w => some (p.invoke t w succeeds)
  | .holding w =>
    let (handles, inserted) := p.handles.pushBack w
    some ({ p with handles := handles }.goto t (.flowingBack inserted))
  | .flowingBack inserted =>
    p.locked (.unlockRead t) t (if inserted then .outside else .uncounting)
  | .uncounting =>
    some ({ p with aliveHandleCount := p.aliveHandleCount - 1 }.goto t .outside)
  | .filling =>
    if succeeds then some ({ p with opened := p.opened + 1 }.goto t (.pushing p.generated))
    else some (p.goto t .leaving)
  | .pushing w =>
    let (handles, inserted) := p.handles.pushBack w
    some ({ p with handles := handles }.goto t (if inserted then .fillCounting else .leaving))
  | .fillCounting =>
    some ({ p with aliveHandleCount := p.aliveHandleCount + 1 }.goto t .leaving)
  | .cleared isExclusive size =>
    some ({ p with aliveHandleCount := p.aliveHandleCount - size }.goto t
      (if isExclusive then .onDrained else .leaving))
  | .onDrained => p.locked (.unlockWrite t) t .outside
  | .blockading => p.locked (.unlockWrite t) t .outside
  | .leaving => p.locked (.unlockRead t) t .outside

def step [DecidableEq C] : Machine (HandlePool T C) (PoolEvent T C)
  | p, .call t call =>
    match p.place t with
    | .outside =>
      p.locked (if call.isExclusive then .lockWrite t else .lockRead t) t (.locking call)
    | _ => none
  | p, .wake t => p.locked (.wake t) t (p.place t)
  | p, .resume t => p.locked (.resume t) t (p.place t)
  | p, .step t succeeds => p.next t succeeds
  | p, .setConfigs configs => some { p with configs := configs }

end HandlePool

end LeigodAPM
