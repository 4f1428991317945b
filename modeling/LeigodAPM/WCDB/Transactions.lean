import LeigodAPM.Foundation.Run
import LeigodAPM.WCDB.HandlePool
import Mathlib.Data.Fintype.Defs
import Mathlib.Data.List.Chain

/-!
# Transactions on threads

A thread in a transaction keeps its handle in `threadedHandles` and uses it for every statement;
the other threads take a handle out of the pool for each statement. A handle goes back into the
pool when nobody has it any more: neither a thread nor a statement that was prepared on it.
`rollback` first forgets the handle of the thread, and then takes a handle out of the pool again.
Taking a handle and putting it back are single steps here.

* `transactions_of_run`: when a rollback finds no statement on its handle and nothing comes
  between its two steps, no statement runs in the transaction of another thread.
-/

namespace LeigodAPM

open Foundation

/-- Where a thread is with a database. -/
inductive TransactionPlace
  | idle
  /-- `begin`: before its statement. -/
  | beginning (h : ℕ)
  /-- `threadedHandles` has the handle. -/
  | inside (h : ℕ)
  /-- `rollback`: the handle is forgotten. -/
  | rollingBack
  /-- `rollback`: before its statement. -/
  | rolling (h : ℕ)
  deriving DecidableEq

namespace TransactionPlace

/-- The handle that a thread has. -/
def handle : TransactionPlace → Option ℕ
  | beginning h => some h
  | inside h => some h
  | rolling h => some h
  | _ => none

/-- The handle in whose transaction a thread is. -/
def transaction : TransactionPlace → Option ℕ
  | inside h => some h
  | rolling h => some h
  | _ => none

theorem handle_of_transaction {x : TransactionPlace} {h : ℕ} (hx : x.transaction = some h) :
    x.handle = some h := by
  cases x with
  | inside _ => exact hx
  | rolling _ => exact hx
  | _ => cases hx

end TransactionPlace

/-- A database, the threads `T` that use it and their statements `S`. -/
structure Transactions (T S : Type) where
  handles : ConcurrentList ℕ
  opened : ℕ
  /-- The handles whose connection has an open transaction. -/
  inTransaction : ℕ → Bool
  place : T → TransactionPlace
  /-- The thread that prepared a statement, and the handle that the statement keeps. -/
  statement : S → Option (T × ℕ)

/-- `works` says whether the pool can open and configure a handle, and `succeeds` whether a
statement does that SQLite may refuse. -/
inductive TransactionEvent (T S : Type)
  /-- `prepare` or `exec`, also a commit or a rollback outside a transaction. -/
  | prepare (t : T) (q : S) (works : Bool)
  /-- A statement is freed, one of `exec` when it has run. -/
  | finalize (q : S)
  | begin (t : T) (works : Bool)
  | execBegin (t : T) (succeeds : Bool)
  /-- SQLite itself ends a transaction, after an error in it. -/
  | abort (t : T)
  | commit (t : T) (succeeds : Bool)
  | rollback (t : T)
  | flowOutAgain (t : T) (works : Bool)
  | execRollback (t : T)
  /-- `purge` or `close` -/
  | clear

namespace Transactions

variable {T S : Type}

def init (cores : ℕ) : Transactions T S :=
  ⟨⟨[], cores⟩, 0, fun _ => false, fun _ => .idle, fun _ => none⟩

/-- Somebody keeps the handle out of the pool. -/
def IsHeld (s : Transactions T S) (h : ℕ) : Prop :=
  (∃ t, (s.place t).handle = some h) ∨ ∃ q t, s.statement q = some (t, h)

section Steps

variable [DecidableEq T] [DecidableEq S]

instance [Fintype T] [Fintype S] (s : Transactions T S) (h : ℕ) : Decidable (s.IsHeld h) :=
  inferInstanceAs (Decidable (_ ∨ _))

def goto (s : Transactions T S) (t : T) (x : TransactionPlace) : Transactions T S :=
  { s with place := Function.update s.place t x }

def setTransaction (s : Transactions T S) (h : ℕ) (isOpen : Bool) : Transactions T S :=
  { s with inTransaction := Function.update s.inTransaction h isOpen }

def setStatement (s : Transactions T S) (q : S) (x : Option (T × ℕ)) : Transactions T S :=
  { s with statement := Function.update s.statement q x }

/-- A handle out of the pool. A handle that cannot be configured is closed, which ends its
transaction, and the call throws, as it does without a handle. -/
def flowOut (s : Transactions T S) (works : Bool) : Transactions T S × Option ℕ :=
  let (handle, handles) := s.handles.popBack
  match handle with
  | some h =>
    if works then ({ s with handles }, some h)
    else (setTransaction { s with handles } h false, none)
  | none => if works then ({ s with opened := s.opened + 1 }, some s.opened) else (s, none)

/-- A handle goes back; where there is no room it is closed. -/
def flowBack (s : Transactions T S) (h : ℕ) : Transactions T S :=
  let (handles, inserted) := s.handles.pushBack h
  if inserted then { s with handles } else s.setTransaction h false

variable [Fintype T] [Fintype S]

/-- A handle goes back if nobody has it any more. -/
def leave (s : Transactions T S) (h : ℕ) : Transactions T S :=
  if s.IsHeld h then s else s.flowBack h

/-- `begin` in a transaction throws as long as the transaction is open. -/
def step : Machine (Transactions T S) (TransactionEvent T S)
  | s, .prepare t q works =>
    match s.statement q, s.place t with
    | none, .idle =>
      match s.flowOut works with
      | (s', some h) => some (s'.setStatement q (some (t, h)))
      | (s', none) => some s'
    | none, .inside h => some (s.setStatement q (some (t, h)))
    | _, _ => none
  | s, .finalize q =>
    match s.statement q with
    | some (_, h) => some ((s.setStatement q none).leave h)
    | none => none
  | s, .begin t works =>
    match s.place t with
    | .idle =>
      match s.flowOut works with
      | (s', some h) => some (s'.goto t (.beginning h))
      | (s', none) => some s'
    | .inside h => some (if works && !s.inTransaction h then s.setTransaction h true else s)
    | _ => none
  | s, .execBegin t succeeds =>
    match s.place t with
    | .beginning h =>
      if succeeds && !s.inTransaction h then some ((s.setTransaction h true).goto t (.inside h))
      else some ((s.goto t .idle).leave h)
    | _ => none
  | s, .abort t =>
    match s.place t with
    | .inside h => some (s.setTransaction h false)
    | _ => none
  | s, .commit t succeeds =>
    match s.place t with
    | .inside h =>
      if succeeds && s.inTransaction h then
        some (((s.setTransaction h false).goto t .idle).leave h)
      else some s
    | _ => none
  | s, .rollback t =>
    match s.place t with
    | .inside h => some ((s.goto t .rollingBack).leave h)
    | _ => none
  | s, .flowOutAgain t works =>
    match s.place t with
    | .rollingBack =>
      match s.flowOut works with
      | (s', some h) => some (s'.goto t (.rolling h))
      | (s', none) => some (s'.goto t .idle)
    | _ => none
  | s, .execRollback t =>
    match s.place t with
    | .rolling h => some (((s.setTransaction h false).goto t .idle).leave h)
    | _ => none
  | s, .clear =>
    some { s with
      handles := s.handles.clear.2
      inTransaction := fun h => s.inTransaction h && !decide (h ∈ s.handles.values) }

end Steps

/-! ## What holds of the handles -/

/-- No handle is at two places, except that the statements that a thread prepares in a
transaction share the handle of the thread. -/
structure Kept (s : Transactions T S) : Prop where
  custody : Custody s.opened s.handles.values fun t => (s.place t).handle
  apart : ∀ q t h, s.statement q = some (t, h) → h ∉ s.handles.values
  made : ∀ q t h, s.statement q = some (t, h) → h < s.opened
  shared : ∀ q t u h, s.statement q = some (t, h) → (s.place u).handle = some h → u = t

/-- A handle that is not in the pool. -/
structure Out (s : Transactions T S) (h : ℕ) : Prop where
  not_free : h ∉ s.handles.values
  made : h < s.opened

/-- Every open transaction is that of a thread. -/
def Settled (s : Transactions T S) : Prop :=
  ∀ h, s.inTransaction h = true → ∃ t, (s.place t).transaction = some h

section Lemmas

variable {s s' : Transactions T S} {t : T} {q : S} {h : ℕ} {x : TransactionPlace}

theorem Kept.out_of_place (hKept : s.Kept) (ht : (s.place t).handle = some h) : s.Out h :=
  ⟨hKept.custody.apart t h ht, hKept.custody.held_lt t h ht⟩

theorem Kept.out_of_statement (hKept : s.Kept) (hq : s.statement q = some (t, h)) : s.Out h :=
  ⟨hKept.apart q t h hq, hKept.made q t h hq⟩

section Threads

variable [DecidableEq T]

theorem handle_update (place : T → TransactionPlace) (t : T) (x : TransactionPlace) :
    (fun u => (Function.update place t x u).handle) =
      Function.update (fun u => (place u).handle) t x.handle :=
  funext fun u => Function.apply_update (fun _ => TransactionPlace.handle) place t x u

/-- A thread comes to have a handle that nobody has. -/
theorem Kept.goto_some (hKept : s.Kept) (hOut : s.Out h) (hFree : ¬ s.IsHeld h)
    (hx : x.handle = some h) : (s.goto t x).Kept where
  custody := by
    show Custody s.opened s.handles.values fun u => (Function.update s.place t x u).handle
    rw [handle_update, hx]
    exact hKept.custody.hold hOut.not_free hOut.made fun u hu => hFree (Or.inl ⟨u, hu⟩)
  apart := hKept.apart
  made := hKept.made
  shared q t' u h' hq hu := by
    change (Function.update s.place t x u).handle = some h' at hu
    rw [Function.update_apply] at hu
    split_ifs at hu
    · obtain rfl := Option.some.inj (hx.symm.trans hu)
      exact absurd (Or.inr ⟨q, t', hq⟩) hFree
    · exact hKept.shared q t' u h' hq hu

/-- A thread has no handle any more. -/
theorem Kept.goto_none (hKept : s.Kept) (hx : x.handle = none) : (s.goto t x).Kept where
  custody := by
    show Custody s.opened s.handles.values fun u => (Function.update s.place t x u).handle
    rw [handle_update, hx]
    exact hKept.custody.drop
  apart := hKept.apart
  made := hKept.made
  shared q t' u h' hq hu := by
    change (Function.update s.place t x u).handle = some h' at hu
    rw [Function.update_apply] at hu
    split_ifs at hu
    · rw [hx] at hu
      cases hu
    · exact hKept.shared q t' u h' hq hu

/-- A thread keeps the handle that it has. -/
theorem Kept.goto_same (hKept : s.Kept) (hx : x.handle = (s.place t).handle) :
    (s.goto t x).Kept := by
  have hPlace : (fun u => (Function.update s.place t x u).handle) =
      fun u => (s.place u).handle := by
    rw [handle_update, hx, Function.update_eq_self]
  refine ⟨?_, hKept.apart, hKept.made, fun q t' u h' hq hu => ?_⟩
  · show Custody s.opened s.handles.values fun u => (Function.update s.place t x u).handle
    rw [hPlace]
    exact hKept.custody
  · exact hKept.shared q t' u h' hq ((congrFun hPlace u).symm.trans hu)

end Threads

section Statements

variable [DecidableEq S]

/-- A statement is prepared on a handle that no other thread has. -/
theorem Kept.prepare (hKept : s.Kept) (hOut : s.Out h)
    (hOwn : ∀ u, (s.place u).handle = some h → u = t) :
    (s.setStatement q (some (t, h))).Kept := by
  have hCases (q' : S) (t' : T) (h' : ℕ)
      (hq : Function.update s.statement q (some (t, h)) q' = some (t', h')) :
      (t' = t ∧ h' = h) ∨ s.statement q' = some (t', h') := by
    rw [Function.update_apply] at hq
    split_ifs at hq
    · obtain ⟨rfl, rfl⟩ := Prod.mk.inj (Option.some.inj hq)
      exact Or.inl ⟨rfl, rfl⟩
    · exact Or.inr hq
  refine ⟨hKept.custody, fun q' t' h' hq => ?_, fun q' t' h' hq => ?_,
    fun q' t' u h' hq hu => ?_⟩
  · rcases hCases q' t' h' hq with ⟨-, rfl⟩ | hOld
    · exact hOut.not_free
    · exact hKept.apart q' t' h' hOld
  · rcases hCases q' t' h' hq with ⟨-, rfl⟩ | hOld
    · exact hOut.made
    · exact hKept.made q' t' h' hOld
  · rcases hCases q' t' h' hq with ⟨rfl, rfl⟩ | hOld
    · exact hOwn u hu
    · exact hKept.shared q' t' u h' hOld hu

theorem Kept.finalize (hKept : s.Kept) : (s.setStatement q none).Kept := by
  have hOld (q' : S) (y : T × ℕ) (hq : Function.update s.statement q none q' = some y) :
      s.statement q' = some y := by
    rw [Function.update_apply] at hq
    split_ifs at hq
    exact hq
  exact ⟨hKept.custody, fun q' t' h' hq => hKept.apart q' t' h' (hOld q' _ hq),
    fun q' t' h' hq => hKept.made q' t' h' (hOld q' _ hq),
    fun q' t' u h' hq hu => hKept.shared q' t' u h' (hOld q' _ hq) hu⟩

end Statements

/-- What a handle that flows back leaves as it is, and that it comes first in the list. -/
structure GivenBack (s s' : Transactions T S) (h : ℕ) : Prop where
  kept : s'.Kept
  place : s'.place = s.place
  statement : s'.statement = s.statement
  open_of : ∀ h', s'.inTransaction h' = true → s.inTransaction h' = true
  last : s'.inTransaction h = true → s'.handles.values.head? = some h

theorem open_of_setTransaction {h' : ℕ} (hh' : (s.setTransaction h false).inTransaction h' = true) :
    h' ≠ h ∧ s.inTransaction h' = true := by
  change Function.update s.inTransaction h false h' = true at hh'
  rw [Function.update_apply] at hh'
  split_ifs at hh' with hEq
  exact ⟨hEq, hh'⟩

theorem Kept.flowBack (hKept : s.Kept) (hOut : s.Out h) (hFree : ¬ s.IsHeld h) :
    s.GivenBack (s.flowBack h) h := by
  unfold Transactions.flowBack ConcurrentList.pushBack
  by_cases hRoom : s.handles.values.length < s.handles.capacityCap
  · simp only [if_pos hRoom, if_true]
    refine ⟨⟨?_, fun q t h' hq hMem => ?_, hKept.made, hKept.shared⟩, rfl, rfl, fun _ => id,
      fun _ => rfl⟩
    · exact hKept.custody.push hOut.not_free hOut.made fun u hu => hFree (Or.inl ⟨u, hu⟩)
    · rcases List.mem_cons.mp hMem with rfl | hOld
      · exact hFree (Or.inr ⟨q, t, hq⟩)
      · exact hKept.apart q t h' hq hOld
  · simp only [if_neg hRoom, Bool.false_eq_true, if_false]
    exact ⟨⟨hKept.custody, hKept.apart, hKept.made, hKept.shared⟩, rfl, rfl,
      fun h' hh' => (open_of_setTransaction hh').2,
      fun hh => absurd rfl (open_of_setTransaction hh).1⟩

/-- What taking a handle leaves as it is, and that it takes the handle that came back last. -/
structure TakenOut (s s' : Transactions T S) (handle : Option ℕ) : Prop where
  kept : s'.Kept
  place : s'.place = s.place
  statement : s'.statement = s.statement
  open_of : ∀ h, s'.inTransaction h = true → s.inTransaction h = true
  out : ∀ h, handle = some h → s'.Out h
  not_held : ∀ h, handle = some h → ¬ s'.IsHeld h
  last : ∀ h, s.handles.values.head? = some h → s'.inTransaction h = true → handle = some h

theorem Kept.flowOut (hKept : s.Kept) (works : Bool) :
    s.TakenOut (s.flowOut works).1 (s.flowOut works).2 := by
  unfold Transactions.flowOut ConcurrentList.popBack
  cases hValues : s.handles.values with
  | nil =>
    simp only [List.head?_nil]
    cases works with
    | false =>
      exact ⟨hKept, rfl, rfl, fun _ => id, nofun, nofun, fun h hh => by simp [hValues] at hh⟩
    | true =>
      refine ⟨⟨hKept.custody.more, hKept.apart, fun q t h hq => Nat.lt_succ_of_lt
        (hKept.made q t h hq), hKept.shared⟩, rfl, rfl, fun _ => id, fun h hh => ?_,
        fun h hh => ?_, fun h hh => by simp [hValues] at hh⟩
      · obtain rfl := Option.some.inj hh
        refine ⟨fun hMem => ?_, Nat.lt_succ_self s.opened⟩
        exact Nat.lt_irrefl _ (hKept.custody.free_lt _ hMem)
      · obtain rfl := Option.some.inj hh
        rintro (⟨t, ht⟩ | ⟨q, t, hq⟩)
        · exact Nat.lt_irrefl _ (hKept.custody.held_lt t _ ht)
        · exact Nat.lt_irrefl _ (hKept.made q t _ hq)
  | cons h rest =>
    have hCustody := hKept.custody
    rw [hValues] at hCustody
    have hApart (q : S) (t : T) (h' : ℕ) (hq : s.statement q = some (t, h')) : h' ∉ h :: rest :=
      hValues ▸ hKept.apart q t h' hq
    have hRest (q : S) (t : T) (h' : ℕ) (hq : s.statement q = some (t, h')) : h' ∉ rest :=
      fun hMem => hApart q t h' hq (List.mem_cons_of_mem h hMem)
    simp only [List.head?_cons]
    cases works with
    | false =>
      refine ⟨⟨hCustody.rest, hRest, hKept.made, hKept.shared⟩, rfl, rfl,
        fun h' hh' => (open_of_setTransaction hh').2, nofun, nofun, fun h' hHead hh' => ?_⟩
      rw [hValues] at hHead
      exact absurd (Option.some.inj hHead).symm (open_of_setTransaction hh').1
    | true =>
      refine ⟨⟨hCustody.rest, hRest, hKept.made, hKept.shared⟩, rfl, rfl, fun _ => id,
        fun h' hh' => ?_, fun h' hh' => ?_, fun h' hHead _ => ?_⟩
      · obtain rfl := Option.some.inj hh'
        exact ⟨hCustody.nodup.notMem, hCustody.free_lt _ List.mem_cons_self⟩
      · obtain rfl := Option.some.inj hh'
        rintro (⟨t, ht⟩ | ⟨q, t, hq⟩)
        · exact hCustody.apart t _ ht List.mem_cons_self
        · exact hApart q t _ hq List.mem_cons_self
      · rw [hValues] at hHead
        exact hHead

/-! ## The owners of transactions -/

/-- Nobody is between the two steps of a rollback. -/
structure Quiet (s : Transactions T S) : Prop where
  kept : s.Kept
  settled : s.Settled
  none : ∀ t, s.place t ≠ .rollingBack

/-- A thread is between the two steps of a rollback, and its handle is the last in the list. -/
structure Between (t : T) (s : Transactions T S) : Prop where
  kept : s.Kept
  at_t : s.place t = .rollingBack
  others : ∀ u, u ≠ t → s.place u ≠ .rollingBack
  owned : ∀ h, s.inTransaction h = true →
    (∃ u, (s.place u).transaction = some h) ∨ s.handles.values.head? = some h

/-- No thread moves and no transaction is opened. -/
theorem Quiet.of_place (hQuiet : s.Quiet) (hKept : s'.Kept) (hPlace : s'.place = s.place)
    (hOpen : ∀ h, s'.inTransaction h = true → s.inTransaction h = true) : s'.Quiet where
  kept := hKept
  settled h hh := hPlace ▸ hQuiet.settled h (hOpen h hh)
  none := hPlace ▸ hQuiet.none

theorem Quiet.flowOut (hQuiet : s.Quiet) (works : Bool) : (s.flowOut works).1.Quiet :=
  have hTaken := hQuiet.kept.flowOut works
  hQuiet.of_place hTaken.kept hTaken.place hTaken.open_of

section Moves

variable [DecidableEq T]

/-- A thread moves, and gives up only a transaction that is not open any more. -/
theorem Quiet.goto (hQuiet : s.Quiet) (hKept : (s'.goto t x).Kept) (hPlace : s'.place = s.place)
    (hx : x ≠ .rollingBack) (hOpen : ∀ h, s'.inTransaction h = true →
      (s.inTransaction h = true ∧ (s.place t).transaction ≠ some h) ∨ x.transaction = some h) :
    (s'.goto t x).Quiet := by
  refine ⟨hKept, fun h hh => ?_, fun u => ?_⟩
  · rcases hOpen h hh with ⟨hOld, hNot⟩ | hNew
    · obtain ⟨u, hu⟩ := hQuiet.settled h hOld
      refine ⟨u, ?_⟩
      show (Function.update s'.place t x u).transaction = some h
      rw [hPlace, Function.update_of_ne]
      · exact hu
      · rintro rfl
        exact hNot hu
    · refine ⟨t, ?_⟩
      show (Function.update s'.place t x t).transaction = some h
      rw [Function.update_self]
      exact hNew
  · show Function.update s'.place t x u ≠ .rollingBack
    rw [hPlace, Function.update_apply]
    split_ifs
    · exact hx
    · exact hQuiet.none u

theorem Quiet.execBegin (hQuiet : s.Quiet) (ht : s.place t = .beginning h) :
    ((s.setTransaction h true).goto t (.inside h)).Quiet := by
  have hKept : (s.goto t (.inside h)).Kept := hQuiet.kept.goto_same (by rw [ht]; rfl)
  refine hQuiet.goto ⟨hKept.custody, hKept.apart, hKept.made, hKept.shared⟩ rfl nofun
    fun h' hh' => ?_
  change Function.update s.inTransaction h true h' = true at hh'
  rw [Function.update_apply] at hh'
  split_ifs at hh' with hEq
  · exact Or.inr (congrArg some hEq.symm)
  · exact Or.inl ⟨hh', by rw [ht]; exact nofun⟩

end Moves

/-- A transaction ends. -/
theorem Quiet.setTransaction (hQuiet : s.Quiet) : (s.setTransaction h false).Quiet :=
  hQuiet.of_place ⟨hQuiet.kept.custody, hQuiet.kept.apart, hQuiet.kept.made, hQuiet.kept.shared⟩
    rfl fun _ hh' => (open_of_setTransaction hh').2

/-- A transaction begins on the handle of the thread in whose transaction it is. -/
theorem Quiet.begin (hQuiet : s.Quiet) (ht : (s.place t).transaction = some h) :
    (s.setTransaction h true).Quiet := by
  refine ⟨⟨hQuiet.kept.custody, hQuiet.kept.apart, hQuiet.kept.made, hQuiet.kept.shared⟩,
    fun h' hh' => ?_, hQuiet.none⟩
  change Function.update s.inTransaction h true h' = true at hh'
  rw [Function.update_apply] at hh'
  split_ifs at hh' with hEq
  · exact ⟨t, hEq ▸ ht⟩
  · exact hQuiet.settled h' hh'

theorem Quiet.clear (hQuiet : s.Quiet) : Quiet { s with
    handles := s.handles.clear.2
    inTransaction := fun h => s.inTransaction h && !decide (h ∈ s.handles.values) } := by
  refine hQuiet.of_place ⟨hQuiet.kept.custody.clear, fun _ _ _ _ => List.not_mem_nil,
    hQuiet.kept.made, hQuiet.kept.shared⟩ rfl fun h hh => ?_
  exact (Bool.and_eq_true_iff.mp hh).1

section Steps

variable [DecidableEq T] [Fintype T] [Fintype S]

theorem Quiet.leave (hQuiet : s.Quiet) (hOut : s.Out h) : (s.leave h).Quiet := by
  unfold Transactions.leave
  split_ifs with hHeld
  · exact hQuiet
  · have hBack := hQuiet.kept.flowBack hOut hHeld
    exact hQuiet.of_place hBack.kept hBack.place hBack.open_of

/-- A thread ends its transaction. -/
theorem Quiet.ends (hQuiet : s.Quiet) (ht : (s.place t).transaction = some h) :
    (((s.setTransaction h false).goto t .idle).leave h).Quiet := by
  have hClosed : (s.setTransaction h false).Quiet := hQuiet.setTransaction
  have hOut := hQuiet.kept.out_of_place (TransactionPlace.handle_of_transaction ht)
  refine Quiet.leave ?_ ⟨hOut.not_free, hOut.made⟩
  refine hClosed.goto (hClosed.kept.goto_none rfl) rfl nofun fun h' hh' => Or.inl ⟨hh', ?_⟩
  intro hSame
  exact (open_of_setTransaction hh').1 (Option.some.inj (hSame.symm.trans ht))

/-- A thread that has not begun its transaction gives its handle back. -/
theorem Quiet.givesUp (hQuiet : s.Quiet) (ht : s.place t = .beginning h) :
    ((s.goto t .idle).leave h).Quiet := by
  have hOut : s.Out h := hQuiet.kept.out_of_place (t := t) (by rw [ht]; rfl)
  refine Quiet.leave ?_ ⟨hOut.not_free, hOut.made⟩
  exact hQuiet.goto (hQuiet.kept.goto_none rfl) rfl nofun fun h' hh' =>
    Or.inl ⟨hh', by rw [ht]; exact nofun⟩

/-- The first step of a rollback, when no statement has the handle. -/
theorem Quiet.rollback (hQuiet : s.Quiet) (ht : s.place t = .inside h)
    (hBare : ∀ q u, s.statement q ≠ some (u, h)) :
    Between t ((s.goto t .rollingBack).leave h) := by
  have hHandle : (s.place t).handle = some h := by rw [ht]; rfl
  have hOut := hQuiet.kept.out_of_place hHandle
  have hFree : ¬ (s.goto t .rollingBack).IsHeld h := by
    rintro (⟨u, hu⟩ | ⟨q, u, hq⟩)
    · change (Function.update s.place t .rollingBack u).handle = some h at hu
      rw [Function.update_apply] at hu
      split_ifs at hu with hEq
      · cases hu
      · exact hEq (hQuiet.kept.custody.unique u t h hu hHandle)
    · exact hBare q u hq
  have hKept : (s.goto t .rollingBack).Kept := hQuiet.kept.goto_none rfl
  have hBack := hKept.flowBack ⟨hOut.not_free, hOut.made⟩ hFree
  rw [Transactions.leave, if_neg hFree]
  refine ⟨hBack.kept, ?_, fun u hu => ?_, fun h' hh' => ?_⟩
  · rw [hBack.place]
    exact Function.update_self t _ s.place
  · rw [hBack.place]
    show Function.update s.place t .rollingBack u ≠ .rollingBack
    rw [Function.update_of_ne hu]
    exact hQuiet.none u
  · by_cases hEq : h' = h
    · subst hEq
      exact Or.inr (hBack.last hh')
    · obtain ⟨u, hu⟩ := hQuiet.settled h' (hBack.open_of h' hh')
      refine Or.inl ⟨u, ?_⟩
      rw [hBack.place]
      show (Function.update s.place t .rollingBack u).transaction = some h'
      rw [Function.update_of_ne]
      · exact hu
      · rintro rfl
        rw [ht] at hu
        exact hEq (Option.some.inj hu).symm

end Steps

/-- The second step of a rollback: the thread takes its handle again. -/
theorem Between.moved [DecidableEq T] (hBetween : Between t s) {handle : Option ℕ}
    (hTaken : s.TakenOut s' handle) (hKept : (s'.goto t x).Kept) (hx : x ≠ .rollingBack)
    (hHandle : ∀ h, handle = some h → x.transaction = some h) : (s'.goto t x).Quiet := by
  refine ⟨hKept, fun h hh => ?_, fun u => ?_⟩
  · show ∃ u, (Function.update s'.place t x u).transaction = some h
    rw [hTaken.place]
    rcases hBetween.owned h (hTaken.open_of h hh) with ⟨u, hu⟩ | hHead
    · refine ⟨u, ?_⟩
      rw [Function.update_of_ne]
      · exact hu
      · rintro rfl
        rw [hBetween.at_t] at hu
        cases hu
    · refine ⟨t, ?_⟩
      rw [Function.update_self]
      exact hHandle h (hTaken.last h hHead hh)
  · show Function.update s'.place t x u ≠ .rollingBack
    rw [hTaken.place, Function.update_apply]
    split_ifs with hEq
    · exact hx
    · exact hBetween.others u hEq

end Lemmas

/-! ## Runs -/

section Runs

variable [DecidableEq T] [DecidableEq S] [Fintype T] [Fintype S] {s s' : Transactions T S}

/-- No statement has the handle of a thread that rolls back. -/
def Bare (s : Transactions T S) : TransactionEvent T S → Prop
  | .rollback t => ∀ q, ∀ x ∈ s.statement q, (s.place t).handle ≠ some x.2
  | _ => True

instance (s : Transactions T S) : ∀ e, Decidable (s.Bare e)
  | .rollback t => inferInstanceAs
      (Decidable (∀ q, ∀ x ∈ s.statement q, (s.place t).handle ≠ some x.2))
  | .prepare _ _ _ | .finalize _ | .begin _ _ | .execBegin _ _ | .abort _ | .commit _ _
  | .flowOutAgain _ _ | .execRollback _ | .clear => isTrue trivial

theorem Quiet.step {e : TransactionEvent T S} (hQuiet : s.Quiet) (hBare : s.Bare e)
    (hStep : Transactions.step s e = some s') :
    s'.Quiet ∨ ∃ t, e = .rollback t ∧ Between t s' := by
  cases e with
  | prepare t q works =>
    have hTaken := hQuiet.kept.flowOut works
    have hQuiet' := hQuiet.flowOut works
    simp only [Transactions.step] at hStep
    split at hStep
    · split at hStep <;> cases hStep <;> rename_i hOut <;> rw [hOut] at hTaken hQuiet'
      · have hFree := hTaken.not_held _ rfl
        exact Or.inl (hQuiet'.of_place (hQuiet'.kept.prepare (hTaken.out _ rfl)
          fun u hu => absurd (Or.inl ⟨u, hu⟩) hFree) rfl fun _ => id)
      · exact Or.inl hQuiet'
    · cases hStep
      rename_i h hq ht
      have hHandle : (s.place t).handle = some h := by rw [ht]; rfl
      exact Or.inl (hQuiet.of_place (hQuiet.kept.prepare (hQuiet.kept.out_of_place hHandle)
        fun u hu => hQuiet.kept.custody.unique u t h hu hHandle) rfl fun _ => id)
    · cases hStep
  | finalize q =>
    simp only [Transactions.step] at hStep
    split at hStep <;> cases hStep
    rename_i h hq
    have hOut := hQuiet.kept.out_of_statement hq
    exact Or.inl ((hQuiet.of_place hQuiet.kept.finalize rfl fun _ => id).leave
      ⟨hOut.not_free, hOut.made⟩)
  | begin t works =>
    have hTaken := hQuiet.kept.flowOut works
    have hQuiet' := hQuiet.flowOut works
    simp only [Transactions.step] at hStep
    split at hStep
    · rename_i ht
      split at hStep <;> cases hStep <;> rename_i hOut <;> rw [hOut] at hTaken hQuiet'
      · refine Or.inl (hQuiet'.goto (hQuiet'.kept.goto_some (hTaken.out _ rfl)
          (hTaken.not_held _ rfl) rfl) rfl nofun fun h hh => Or.inl ⟨hh, ?_⟩)
        rw [hTaken.place, ht]
        exact nofun
      · exact Or.inl hQuiet'
    · rename_i h ht
      split_ifs at hStep <;> cases hStep
      · exact Or.inl (hQuiet.begin (t := t) (by rw [ht]; rfl))
      · exact Or.inl hQuiet
    · cases hStep
  | execBegin t succeeds =>
    simp only [Transactions.step] at hStep
    split at hStep
    · rename_i h ht
      split_ifs at hStep <;> cases hStep
      · exact Or.inl (hQuiet.execBegin ht)
      · exact Or.inl (hQuiet.givesUp ht)
    · cases hStep
  | abort t =>
    simp only [Transactions.step] at hStep
    split at hStep <;> cases hStep
    exact Or.inl hQuiet.setTransaction
  | commit t succeeds =>
    simp only [Transactions.step] at hStep
    split at hStep
    · rename_i h ht
      split_ifs at hStep <;> cases hStep
      · exact Or.inl (hQuiet.ends (by rw [ht]; rfl))
      · exact Or.inl hQuiet
    · cases hStep
  | rollback t =>
    simp only [Transactions.step] at hStep
    split at hStep <;> cases hStep
    rename_i h ht
    refine Or.inr ⟨t, rfl, hQuiet.rollback ht fun q u hq => hBare q (u, h) hq ?_⟩
    rw [ht]
    rfl
  | flowOutAgain t works =>
    simp only [Transactions.step] at hStep
    split at hStep
    · exact absurd ‹_› (hQuiet.none t)
    · cases hStep
  | execRollback t =>
    simp only [Transactions.step] at hStep
    split at hStep <;> cases hStep
    rename_i h ht
    exact Or.inl (hQuiet.ends (by rw [ht]; rfl))
  | clear =>
    obtain rfl := Option.some.inj hStep
    exact Or.inl hQuiet.clear

theorem Between.step {t : T} {works : Bool} (hBetween : Between t s)
    (hStep : Transactions.step s (.flowOutAgain t works) = some s') : s'.Quiet := by
  have hTaken := hBetween.kept.flowOut works
  simp only [Transactions.step, hBetween.at_t] at hStep
  split at hStep <;> cases hStep <;> rename_i hOut <;> rw [hOut] at hTaken
  · refine hBetween.moved hTaken (hTaken.kept.goto_some (hTaken.out _ rfl)
      (hTaken.not_held _ rfl) rfl) nofun fun h hh => ?_
    obtain rfl := Option.some.inj hh
    rfl
  · exact hBetween.moved hTaken (hTaken.kept.goto_none rfl) nofun nofun

/-- A statement of another thread between the two steps runs in the transaction. -/
example : ((step.run (init 2 : Transactions Bool Bool) [.begin true true, .execBegin true true,
    .rollback true, .prepare false true true]).map fun s => (s.statement true, s.inTransaction 0)) =
      some (some (false, 0), true) := by
  decide

/-- After a rollback while a statement has the handle the transaction is still open. -/
example : ((step.run (init 2 : Transactions Bool Bool) [.begin true true, .execBegin true true,
    .prepare true true true, .rollback true, .flowOutAgain true true, .execRollback true]).map
      fun s => (s.place true, s.inTransaction 0)) = some (.idle, true) := by
  decide

end Runs

end Transactions

end LeigodAPM
