import LeigodAPM.Foundation.Parties
import LeigodAPM.Foundation.Run

/-!
# The pools of all databases

Databases of one path share a handle pool. The static `pools` keeps each pool with the number of
recyclable pools that refer to it, and forgets it with the last one. Each access is made under a
spin lock. A database and every transaction that it made keep one recyclable pool together, which
is recycled when the last of them has gone.

* `pools_of_run`: two of these objects share a pool exactly if they have the same path, and
  `pools` counts the recyclable pools of each path.
-/

namespace LeigodAPM

open Foundation

/-- A handle pool, which is an object, so it has a number, and how many refer to it. -/
structure Wrap where
  handlePool : ℕ
  reference : ℤ

/-- A wrap that one recyclable pool less refers to; `none` when nobody does. -/
def Wrap.released (wrap : Wrap) : Option Wrap :=
  if wrap.reference - 1 = 0 then none else some ⟨wrap.handlePool, wrap.reference - 1⟩

/-- The static `pools`, and the path and pool of each recyclable pool until it is recycled. -/
structure HandlePools (R : Type) where
  pools : String → Option Wrap
  /-- How many pools were made so far. -/
  made : ℕ
  recyclable : R → Option (String × ℕ)

namespace HandlePools

variable {R : Type}

def init : HandlePools R := ⟨fun _ => none, 0, fun _ => none⟩

/-- A new pool for a path that has none, to which nobody refers yet. -/
def ensure (s : HandlePools R) (path : String) : HandlePools R :=
  match s.pools path with
  | none =>
    { s with pools := Function.update s.pools path (some ⟨s.made, 0⟩), made := s.made + 1 }
  | some _ => s

@[simp] theorem recyclable_ensure (s : HandlePools R) (path : String) :
    (s.ensure path).recyclable = s.recyclable := by
  unfold ensure
  split <;> rfl

/-- The pool that a path has. -/
def poolAt (s : HandlePools R) (path : String) : Option ℕ :=
  (s.pools path).map fun wrap => wrap.handlePool

theorem poolAt_of_update {s s' : HandlePools R} {path : String} {wrap : Option Wrap}
    (h : s'.pools = Function.update s.pools path wrap) :
    s'.poolAt = Function.update s.poolAt path (wrap.map fun wrap => wrap.handlePool) := by
  funext path'
  rw [poolAt, h]
  exact Function.apply_update (fun _ => Option.map fun wrap => wrap.handlePool) s.pools path wrap
    path'

/-- A recyclable pool of the path. -/
def hasPath (path : String) : Option (String × ℕ) → Bool
  | none => false
  | some (path', _) => path' = path

theorem hasPath_eq_true_iff (path : String) (x : Option (String × ℕ)) :
    hasPath path x = true ↔ ∃ n, x = some (path, n) := by
  rcases x with _ | ⟨path', n⟩
  · simp [hasPath]
  · simp [hasPath, eq_comm]

/-! ## The invariant -/

section Invariant

variable [Fintype R]

structure Counted (s : HandlePools R) : Prop where
  shared : ∀ r path n, s.recyclable r = some (path, n) → s.poolAt path = some n
  made : ∀ path n, s.poolAt path = some n → n < s.made
  apart : ∀ path path' n, s.poolAt path = some n → s.poolAt path' = some n → path = path'
  reference : ∀ path wrap, s.pools path = some wrap →
    wrap.reference = occupied (hasPath path) s.recyclable

/-- Every pool that `pools` keeps is referred to. -/
structure Inv (s : HandlePools R) : Prop extends Counted s where
  positive : ∀ path wrap, s.pools path = some wrap → 0 < wrap.reference

variable {s : HandlePools R} {path : String}

theorem Inv.init : (init : HandlePools R).Inv where
  shared r path n h := by cases h
  made path n h := by cases h
  apart path path' n h := by cases h
  reference path wrap h := by cases h
  positive path wrap h := by cases h

/-- A path without a pool has no recyclable pools. -/
theorem Counted.occupied_eq_zero (hCounted : s.Counted) (hNone : s.poolAt path = none) :
    occupied (hasPath path) s.recyclable = 0 := by
  rw [occupied_eq_zero_iff]
  intro r
  by_contra hr
  obtain ⟨n, hn⟩ := (hasPath_eq_true_iff path _).mp (Bool.eq_true_of_not_eq_false hr)
  have hPool := hCounted.shared r path n hn
  rw [hNone] at hPool
  cases hPool

theorem Counted.ensure (hCounted : s.Counted) (path : String) : (s.ensure path).Counted := by
  unfold HandlePools.ensure
  cases hNone : s.pools path with
  | some wrap => exact hCounted
  | none =>
    have hOldPool : s.poolAt path = none := by rw [poolAt, hNone]; rfl
    have hPool (path' : String) : poolAt { s with
        pools := Function.update s.pools path (some ⟨s.made, 0⟩), made := s.made + 1 } path' =
          if path' = path then some s.made else s.poolAt path' := by
      rw [poolAt_of_update rfl, Function.update_apply]
      rfl
    have hFresh (path' : String) (hMade : s.poolAt path' = some s.made) : False :=
      Nat.lt_irrefl _ (hCounted.made path' _ hMade)
    refine ⟨fun r path' n hr => ?_, fun path' n h => ?_, fun path₁ path₂ n h₁ h₂ => ?_,
      fun path' wrap h => ?_⟩
    · have hShared := hCounted.shared r path' n hr
      rw [hPool, if_neg, hShared]
      rintro rfl
      rw [hOldPool] at hShared
      cases hShared
    · rw [hPool] at h
      split_ifs at h
      · obtain rfl := Option.some.inj h
        exact Nat.lt_succ_self s.made
      · exact Nat.lt_succ_of_lt (hCounted.made path' n h)
    · rw [hPool] at h₁ h₂
      split_ifs at h₁ h₂ with hEq₁ hEq₂ hEq₂
      · exact hEq₁.trans hEq₂.symm
      · obtain rfl := Option.some.inj h₁
        exact (hFresh path₂ h₂).elim
      · obtain rfl := Option.some.inj h₂
        exact (hFresh path₁ h₁).elim
      · exact hCounted.apart path₁ path₂ n h₁ h₂
    · change Function.update s.pools path (some ⟨s.made, 0⟩) path' = some wrap at h
      rw [Function.update_apply] at h
      split_ifs at h with hEq
      · obtain rfl := Option.some.inj h
        rw [hEq]
        exact (hCounted.occupied_eq_zero hOldPool).symm
      · exact hCounted.reference path' wrap h

/-- `pools` keeps a path exactly as long as it has a recyclable pool. -/
theorem Inv.pools_iff (hInv : s.Inv) (path : String) :
    (s.pools path).isSome = true ↔ ∃ r n, s.recyclable r = some (path, n) := by
  constructor
  · intro hSome
    obtain ⟨wrap, hWrap⟩ := Option.isSome_iff_exists.mp hSome
    have hPositive := hInv.positive path wrap hWrap
    rw [hInv.reference path wrap hWrap, occupied_pos_iff] at hPositive
    obtain ⟨r, hr⟩ := hPositive
    exact ⟨r, (hasPath_eq_true_iff path _).mp hr⟩
  · rintro ⟨r, n, hr⟩
    obtain ⟨wrap, hWrap, -⟩ := Option.map_eq_some_iff.mp (hInv.shared r path n hr)
    rw [hWrap]
    rfl

end Invariant

variable [DecidableEq R]

/-- `getExistingPool(atIndex:)`, at the index of a path. -/
def refer (s : HandlePools R) (r : R) (path : String) : Option (HandlePools R) :=
  (s.pools path).map fun wrap =>
    { s with
      pools := Function.update s.pools path (some ⟨wrap.handlePool, wrap.reference + 1⟩)
      recyclable := Function.update s.recyclable r (some (path, wrap.handlePool)) }

/-- The block of the recyclable pool, which expects the path in `pools`. -/
def onRecycled (s : HandlePools R) (r : R) (path : String) : Option (HandlePools R) :=
  (s.pools path).map fun wrap =>
    { s with
      pools := Function.update s.pools path wrap.released
      recyclable := Function.update s.recyclable r none }

theorem recyclable_of_refer {s s' : HandlePools R} {r : R} {path : String}
    (hStep : s.refer r path = some s') :
    ∃ n, s'.recyclable = Function.update s.recyclable r (some (path, n)) := by
  obtain ⟨wrap, -, rfl⟩ := Option.map_eq_some_iff.mp hStep
  exact ⟨wrap.handlePool, rfl⟩

theorem recyclable_of_onRecycled {s s' : HandlePools R} {r : R} {path : String}
    (hStep : s.onRecycled r path = some s') :
    s'.recyclable = Function.update s.recyclable r none := by
  obtain ⟨wrap, -, rfl⟩ := Option.map_eq_some_iff.mp hStep
  rfl

/-! ## The steps keep the invariant -/

section Steps

variable [Fintype R] {s s' : HandlePools R} {r : R} {path : String}

/-- How many recyclable pools a path has after a change of one. -/
theorem occupied_hasPath (path : String) (r : R) (x : Option (String × ℕ)) :
    occupied (hasPath path) (Function.update s.recyclable r x) =
      occupied (hasPath path) s.recyclable - (if hasPath path (s.recyclable r) then 1 else 0) +
        if hasPath path x then 1 else 0 :=
  occupied_update _ s.recyclable r x

theorem Counted.refer (hCounted : s.Counted) (hNone : s.recyclable r = none)
    (hStep : s.refer r path = some s') : s'.Counted := by
  obtain ⟨wrap, hWrap, rfl⟩ := Option.map_eq_some_iff.mp hStep
  have hAt : s.poolAt path = some wrap.handlePool := by rw [poolAt, hWrap]; rfl
  have hPool : poolAt { s with
      pools := Function.update s.pools path (some ⟨wrap.handlePool, wrap.reference + 1⟩)
      recyclable := Function.update s.recyclable r (some (path, wrap.handlePool)) } = s.poolAt := by
    rw [poolAt_of_update rfl]
    exact Function.update_eq_self_iff.mpr hAt.symm
  refine ⟨fun e path' n he => ?_, ?_, ?_, fun path' wrap' h => ?_⟩
  · rw [hPool]
    change Function.update s.recyclable r _ e = _ at he
    rw [Function.update_apply] at he
    split_ifs at he
    · obtain ⟨rfl, rfl⟩ := Prod.mk.inj (Option.some.inj he)
      exact hAt
    · exact hCounted.shared e path' n he
  · rw [hPool]
    exact hCounted.made
  · rw [hPool]
    exact hCounted.apart
  · show wrap'.reference = occupied (hasPath path') (Function.update s.recyclable r _)
    change Function.update s.pools path _ path' = some wrap' at h
    rw [occupied_hasPath, hNone]
    rw [Function.update_apply] at h
    split_ifs at h with hEq
    · obtain rfl := Option.some.inj h
      rw [hEq, ← hCounted.reference path wrap hWrap]
      simp [hasPath]
    · rw [← hCounted.reference path' wrap' h]
      simp [hasPath, Ne.symm hEq]

theorem Counted.inv_refer (hCounted : s.Counted) (hNone : s.recyclable r = none)
    (hPositive : ∀ path' wrap, path' ≠ path → s.pools path' = some wrap → 0 < wrap.reference)
    (hStep : s.refer r path = some s') : s'.Inv := by
  refine ⟨hCounted.refer hNone hStep, fun path' wrap' h => ?_⟩
  obtain ⟨wrap, hWrap, rfl⟩ := Option.map_eq_some_iff.mp hStep
  change Function.update s.pools path _ path' = some wrap' at h
  rw [Function.update_apply] at h
  split_ifs at h with hEq
  · obtain rfl := Option.some.inj h
    have hNonneg := occupied_nonneg (hasPath path) s.recyclable
    rw [← hCounted.reference path wrap hWrap] at hNonneg
    exact Int.lt_add_one_of_le hNonneg
  · exact hPositive path' wrap' hEq h

theorem Inv.getPool (hInv : s.Inv) (hNone : s.recyclable r = none)
    (hStep : (s.ensure path).refer r path = some s') : s'.Inv := by
  refine (hInv.toCounted.ensure path).inv_refer (by rwa [recyclable_ensure])
    (fun path' wrap hNe h => ?_) hStep
  refine hInv.positive path' wrap ?_
  unfold HandlePools.ensure at h
  split at h
  · exact (Function.update_of_ne hNe _ _).symm.trans h
  · exact h

theorem Counted.onRecycled {n : ℕ} (hCounted : s.Counted) (hr : s.recyclable r = some (path, n))
    (hStep : s.onRecycled r path = some s') : s'.Counted := by
  obtain ⟨wrap, hWrap, rfl⟩ := Option.map_eq_some_iff.mp hStep
  have hReference := hCounted.reference path wrap hWrap
  have hAt : s.poolAt path = some wrap.handlePool := by rw [poolAt, hWrap]; rfl
  have hPool (path' : String) : poolAt { s with
      pools := Function.update s.pools path wrap.released
      recyclable := Function.update s.recyclable r none } path' =
        if path' = path then wrap.released.map fun wrap => wrap.handlePool else s.poolAt path' := by
    rw [poolAt_of_update rfl, Function.update_apply]
  have hLess (path' : String) : occupied (hasPath path') (Function.update s.recyclable r none) =
      occupied (hasPath path') s.recyclable - if path' = path then 1 else 0 := by
    rw [occupied_hasPath, hr]
    simp [hasPath, eq_comm]
  have hOld (path' : String) (m : ℕ) (h : (if path' = path then
      wrap.released.map fun wrap => wrap.handlePool else s.poolAt path') = some m) :
      s.poolAt path' = some m := by
    split_ifs at h with hEq
    · rw [Wrap.released] at h
      split_ifs at h
      · cases h
      · rw [hEq, hAt]
        exact h
    · exact h
  refine ⟨fun e path' m he => ?_, fun path' m h => ?_, fun path₁ path₂ m h₁ h₂ => ?_,
    fun path' wrap' h => ?_⟩
  · change Function.update s.recyclable r none e = some (path', m) at he
    have hShared : s.poolAt path' = some m := by
      rw [Function.update_apply] at he
      split_ifs at he
      exact hCounted.shared e path' m he
    rw [hPool]
    split_ifs with hEq
    · -- Another recyclable pool of the path is left, so its pool stays.
      have hLeft : 1 ≤ occupied (hasPath path') (Function.update s.recyclable r none) :=
        one_le_occupied ((hasPath_eq_true_iff _ _).mpr ⟨m, he⟩)
      rw [hLess, if_pos hEq, hEq, ← hReference] at hLeft
      rw [Wrap.released, if_neg (by omega), ← hShared, hEq, hAt]
      rfl
    · exact hShared
  · rw [hPool] at h
    exact hCounted.made path' m (hOld path' m h)
  · rw [hPool] at h₁ h₂
    exact hCounted.apart path₁ path₂ m (hOld path₁ m h₁) (hOld path₂ m h₂)
  · show wrap'.reference = occupied (hasPath path') (Function.update s.recyclable r none)
    change Function.update s.pools path wrap.released path' = some wrap' at h
    rw [hLess]
    rw [Function.update_apply] at h
    split_ifs at h with hEq
    · rw [Wrap.released] at h
      split_ifs at h
      obtain rfl := Option.some.inj h
      rw [if_pos hEq, hEq, ← hReference]
    · rw [if_neg hEq, sub_zero]
      exact hCounted.reference path' wrap' h

theorem Inv.onRecycled {n : ℕ} (hInv : s.Inv) (hr : s.recyclable r = some (path, n))
    (hStep : s.onRecycled r path = some s') : s'.Inv := by
  refine ⟨hInv.toCounted.onRecycled hr hStep, fun path' wrap' h => ?_⟩
  obtain ⟨wrap, hWrap, rfl⟩ := Option.map_eq_some_iff.mp hStep
  change Function.update s.pools path wrap.released path' = some wrap' at h
  rw [Function.update_apply] at h
  split_ifs at h with hEq
  · rw [Wrap.released] at h
    split_ifs at h with hLast
    obtain rfl := Option.some.inj h
    have hPositive := hInv.positive path wrap hWrap
    show 0 < wrap.reference - 1
    omega
  · exact hInv.positive path' wrap' h

end Steps

end HandlePools

/-! ## Databases and transactions -/

/-- The pools, and the recyclable pool that each database and each transaction keeps. -/
structure Cores (K R : Type) where
  pools : HandlePools R
  core : K → Option R

inductive CoreEvent (K R : Type)
  /-- `Database(withPath:)` -/
  | getPool (k : K) (r : R) (path : String)
  /-- `Database(withExistingPath:)`, or with a tag that the pool of the path has -/
  | getExistingPool (k : K) (r : R) (path : String)
  /-- `getTransaction` of a database, which has a handle for the new transaction. -/
  | getTransaction (k k' : K)
  /-- A database or a transaction is freed. -/
  | goesAway (k : K)
  /-- The block of a recyclable pool runs. -/
  | recycle (r : R)

namespace Cores

open HandlePools

variable {K R : Type}

def init : Cores K R := ⟨HandlePools.init, fun _ => none⟩

/-- The path and the pool that a database or a transaction works with. -/
def poolOf (s : Cores K R) (k : K) : Option (String × ℕ) := (s.core k).bind s.pools.recyclable

/-- A recyclable pool that the last of its objects has left. -/
def Left (s : Cores K R) (r : R) : Prop := ∀ k, s.core k ≠ some r

instance [Fintype K] [DecidableEq R] (s : Cores K R) (r : R) : Decidable (s.Left r) :=
  inferInstanceAs (Decidable (∀ k, s.core k ≠ some r))

variable [DecidableEq K] [DecidableEq R]

/-- A new object with a recyclable pool of its own. -/
def make (s : Cores K R) (k : K) (r : R) (pools : HandlePools R) : Cores K R :=
  ⟨pools, Function.update s.core k (some r)⟩

/-- Asking for an existing pool that is missing throws, and there is no object then. -/
def step [Fintype K] : Machine (Cores K R) (CoreEvent K R)
  | s, .getPool k r path =>
    match s.core k, s.pools.recyclable r with
    | none, none => ((s.pools.ensure path).refer r path).map (s.make k r)
    | _, _ => none
  | s, .getExistingPool k r path =>
    match s.core k, s.pools.recyclable r with
    | none, none => some (((s.pools.refer r path).map (s.make k r)).getD s)
    | _, _ => none
  | s, .getTransaction k k' =>
    match s.core k, s.core k' with
    | some r, none => some { s with core := Function.update s.core k' (some r) }
    | _, _ => none
  | s, .goesAway k =>
    match s.core k with
    | none => none
    | some _ => some { s with core := Function.update s.core k none }
  | s, .recycle r =>
    match s.pools.recyclable r with
    | none => none
    | some (path, _) =>
      if s.Left r then (s.pools.onRecycled r path).map fun pools => { s with pools } else none

/-! ## Runs -/

section Runs

variable [Fintype R]

/-- The recyclable pool of every object is one that `pools` counts. -/
structure Inv (s : Cores K R) : Prop where
  pools : s.pools.Inv
  counted : ∀ k r, s.core k = some r → (s.pools.recyclable r).isSome = true

theorem Inv.make {s : Cores K R} {k : K} {r : R} {path : String} {asked pools : HandlePools R}
    (hInv : s.Inv) (hRecyclable : asked.recyclable = s.pools.recyclable) (hPools : pools.Inv)
    (hRefer : asked.refer r path = some pools) : (s.make k r pools).Inv where
  pools := hPools
  counted k' r' hk' := by
    obtain ⟨n, hn⟩ := recyclable_of_refer hRefer
    show (pools.recyclable r').isSome = true
    rw [hn, hRecyclable, Function.update_apply]
    split_ifs with hEq
    · rfl
    · -- Another object, since the new one has the new recyclable pool.
      refine hInv.counted k' r' ?_
      change Function.update s.core k (some r) k' = some r' at hk'
      rw [Function.update_apply] at hk'
      split_ifs at hk' with hSelf
      · exact absurd (Option.some.inj hk').symm hEq
      · exact hk'

variable [Fintype K]

theorem Inv.step {s s' : Cores K R} {e : CoreEvent K R} (hInv : s.Inv)
    (hStep : Cores.step s e = some s') : s'.Inv := by
  cases e with
  | getPool k r path =>
    simp only [Cores.step] at hStep
    split at hStep
    · obtain ⟨pools, hRefer, rfl⟩ := Option.map_eq_some_iff.mp hStep
      exact hInv.make (recyclable_ensure _ _) (hInv.pools.getPool ‹_› hRefer) hRefer
    · cases hStep
  | getExistingPool k r path =>
    simp only [Cores.step] at hStep
    split at hStep
    · rename_i hNone
      obtain rfl := Option.some.inj hStep
      cases hRefer : s.pools.refer r path with
      | none => exact hInv
      | some pools =>
        exact hInv.make rfl (hInv.pools.toCounted.inv_refer hNone
          (fun path' wrap _ h => hInv.pools.positive path' wrap h) hRefer) hRefer
    · cases hStep
  | getTransaction k k' =>
    simp only [Cores.step] at hStep
    split at hStep
    · rename_i r hk hk'
      obtain rfl := Option.some.inj hStep
      refine ⟨hInv.pools, fun l r' hl => ?_⟩
      change Function.update s.core k' (some r) l = some r' at hl
      rw [Function.update_apply] at hl
      split_ifs at hl
      · obtain rfl := Option.some.inj hl
        exact hInv.counted k r hk
      · exact hInv.counted l r' hl
    · cases hStep
  | goesAway k =>
    simp only [Cores.step] at hStep
    split at hStep
    · cases hStep
    · obtain rfl := Option.some.inj hStep
      refine ⟨hInv.pools, fun l r' hl => ?_⟩
      change Function.update s.core k none l = some r' at hl
      rw [Function.update_apply] at hl
      split_ifs at hl
      exact hInv.counted l r' hl
  | recycle r =>
    simp only [Cores.step] at hStep
    split at hStep
    · cases hStep
    · rename_i hr
      split_ifs at hStep with hLeft
      obtain ⟨pools, hRecycled, rfl⟩ := Option.map_eq_some_iff.mp hStep
      refine ⟨hInv.pools.onRecycled hr hRecycled, fun l r' hl => ?_⟩
      show (pools.recyclable r').isSome = true
      rw [recyclable_of_onRecycled hRecycled, Function.update_of_ne]
      · exact hInv.counted l r' hl
      · rintro rfl
        exact hLeft l hl

/-- What `pools` promises to the databases and to the transactions. -/
structure Shares (s : Cores K R) : Prop where
  /-- Each object has its path, and the pool that `pools` keeps for it. -/
  kept : ∀ k, (s.core k).isSome = true → ∃ path n, s.poolOf k = some (path, n) ∧
    s.pools.poolAt path = some n
  same_iff : ∀ k k' path path' n n', s.poolOf k = some (path, n) →
    s.poolOf k' = some (path', n') → (n = n' ↔ path = path')
  reference : ∀ path wrap, s.pools.pools path = some wrap →
    wrap.reference = occupied (hasPath path) s.pools.recyclable
  pools_iff : ∀ path, (s.pools.pools path).isSome = true ↔
    (∃ k n, s.poolOf k = some (path, n)) ∨
      ∃ r n, s.Left r ∧ s.pools.recyclable r = some (path, n)
  recycles : ∀ r, s.Left r → (s.pools.recyclable r).isSome = true →
    (Cores.step s (.recycle r)).isSome = true

theorem Inv.shares {s : Cores K R} (hInv : s.Inv) : s.Shares where
  kept k hk := by
    obtain ⟨r, hr⟩ := Option.isSome_iff_exists.mp hk
    obtain ⟨⟨path, n⟩, hPath⟩ := Option.isSome_iff_exists.mp (hInv.counted k r hr)
    exact ⟨path, n, by rw [poolOf, hr]; exact hPath, hInv.pools.shared r path n hPath⟩
  same_iff k k' path path' n n' hk hk' := by
    obtain ⟨r, -, hr⟩ := Option.bind_eq_some_iff.mp hk
    obtain ⟨r', -, hr'⟩ := Option.bind_eq_some_iff.mp hk'
    have hPool := hInv.pools.shared r path n hr
    have hPool' := hInv.pools.shared r' path' n' hr'
    constructor
    · rintro rfl
      exact hInv.pools.apart path path' n hPool hPool'
    · rintro rfl
      exact Option.some.inj (hPool.symm.trans hPool')
  reference := hInv.pools.reference
  pools_iff path := by
    have hIff : (s.pools.pools path).isSome = true ↔
        ∃ r n, s.pools.recyclable r = some (path, n) := hInv.pools.pools_iff path
    rw [hIff]
    constructor
    · rintro ⟨r, n, hr⟩
      by_cases hLeft : s.Left r
      · exact Or.inr ⟨r, n, hLeft, hr⟩
      · obtain ⟨k, hk⟩ := not_forall_not.mp hLeft
        exact Or.inl ⟨k, n, by rw [poolOf, hk]; exact hr⟩
    · rintro (⟨k, n, hk⟩ | ⟨r, n, -, hr⟩)
      · obtain ⟨r, -, hr⟩ := Option.bind_eq_some_iff.mp hk
        exact ⟨r, n, hr⟩
      · exact ⟨r, n, hr⟩
  recycles r hLeft hr := by
    obtain ⟨⟨path, n⟩, hPath⟩ := Option.isSome_iff_exists.mp hr
    obtain ⟨wrap, hWrap, -⟩ := Option.map_eq_some_iff.mp (hInv.pools.shared r path n hPath)
    simp only [Cores.step, hPath, if_pos hLeft, onRecycled, hWrap, Option.map_some,
      Option.isSome_some]

/-- **Shared pools.** However databases and transactions are made and freed, two of them share a
handle pool exactly if they have the same path, and `pools` keeps it for them. The count of a path
is that of its recyclable pools. A path is kept exactly as long as some database or transaction
has it or a recyclable pool of it still has to run its block, and every block finds its path. -/
theorem pools_of_run (es : List (CoreEvent K R)) :
    step.Always (fun _ s => s.Shares) (init : Cores K R) es :=
  (Machine.always_of_step (I := fun _ s => s.Inv)
    ⟨HandlePools.Inv.init, fun _ _ h => by cases h⟩
    fun _ _ _ _ hInv hStep => hInv.step hStep).mono fun _ _ hInv => hInv.shares

end Runs

end Cores

end LeigodAPM
