import LeigodAPM.Foundation.Run
import Mathlib.Data.List.DropRight
import Mathlib.Data.List.Nodup
import Mathlib.Data.List.Perm.Basic

/-!
# Registries of weakly held objects

Objects are added to a registry and removed from it, and may be deallocated at any time,
which takes them out without a call. `IsRoster h l` says what the registry should contain
after the history `h`, in terms of the history alone: the objects that are alive and
whose most recent operation was an addition, each once, in the order of their earliest
addition since their last removal.

* `IsRoster.unique`: the history determines the list.
* `IsRoster.apply`: the list is kept up to date by `RegistryOp.apply`, one operation at
  a time.
-/

namespace LeigodAPM.Foundation

/-- An operation on a registry, or the death of an object. -/
inductive RegistryOp (α : Type*)
  | add (a : α)
  | remove (a : α)
  | dealloc (a : α)
  deriving DecidableEq

variable {α : Type*}

/-- The object has not been deallocated. -/
def Alive (h : List (RegistryOp α)) (a : α) : Prop := .dealloc a ∉ h

/-- The most recent addition or removal of `a` was an addition. -/
def LastAdded (h : List (RegistryOp α)) (a : α) : Prop :=
  Since (fun op => op = .add a) (fun op => op = .remove a) h

theorem alive_concat {h : List (RegistryOp α)} {op : RegistryOp α} {a : α} :
    Alive (h ++ [op]) a ↔ Alive h a ∧ op ≠ .dealloc a := by
  simp only [Alive, List.mem_append, List.mem_singleton, not_or]
  exact and_congr_right fun _ => ne_comm

theorem lastAdded_concat {h : List (RegistryOp α)} {op : RegistryOp α} {a : α} :
    LastAdded (h ++ [op]) a ↔ op = .add a ∨ (LastAdded h a ∧ op ≠ .remove a) :=
  since_concat

section DecidableEq

variable [DecidableEq α]

/-- The operations after the last removal of `a`. -/
def sinceRemoved (h : List (RegistryOp α)) (a : α) : List (RegistryOp α) :=
  h.rtakeWhile fun op => op ≠ .remove a

/-- The position of the earliest addition of `a` since its last removal. -/
def joinedAt (h : List (RegistryOp α)) (a : α) : ℕ :=
  h.length - (sinceRemoved h a).length + (sinceRemoved h a).idxOf (.add a)

/-- What the registry should contain after the history `h`. -/
structure IsRoster (h : List (RegistryOp α)) (l : List α) : Prop where
  nodup : l.Nodup
  mem_iff : ∀ a, a ∈ l ↔ Alive h a ∧ LastAdded h a
  ordered : l.Pairwise fun a b => joinedAt h a < joinedAt h b

/-- One operation on the list of objects, compared by identity. -/
def RegistryOp.apply : RegistryOp α → List α → List α
  | .add a, l => if a ∈ l then l else l ++ [a]
  | .remove a, l => l.filter (· ≠ a)
  | .dealloc a, l => l.filter (· ≠ a)

/-! ## Reading the history one operation at a time -/

theorem sinceRemoved_concat {h : List (RegistryOp α)} {op : RegistryOp α} {a : α}
    (hOp : op ≠ .remove a) : sinceRemoved (h ++ [op]) a = sinceRemoved h a ++ [op] := by
  simp [sinceRemoved, hOp]

theorem sinceRemoved_concat_remove (h : List (RegistryOp α)) (a : α) :
    sinceRemoved (h ++ [.remove a]) a = [] := by
  simp [sinceRemoved]

theorem length_sinceRemoved_le (h : List (RegistryOp α)) (a : α) :
    (sinceRemoved h a).length ≤ h.length :=
  (List.rtakeWhile_suffix _ h).length_le

theorem lastAdded_iff_mem {h : List (RegistryOp α)} {a : α} :
    LastAdded h a ↔ .add a ∈ sinceRemoved h a := by
  induction h using List.reverseRecOn with
  | nil => simp [LastAdded, sinceRemoved]
  | append_singleton h op ih =>
    rw [lastAdded_concat, ih]
    by_cases hOp : op = .remove a
    · subst hOp
      simp [sinceRemoved_concat_remove]
    · rw [sinceRemoved_concat hOp]
      simp [hOp, or_comm, eq_comm]

theorem joinedAt_lt {h : List (RegistryOp α)} {a : α} (ha : LastAdded h a) :
    joinedAt h a < h.length := by
  have hLen := length_sinceRemoved_le h a
  have hIdx := List.idxOf_lt_length_iff.mpr (lastAdded_iff_mem.mp ha)
  unfold joinedAt
  omega

/-- An object that stays registered keeps its place. -/
theorem joinedAt_concat {h : List (RegistryOp α)} {op : RegistryOp α} {a : α}
    (ha : LastAdded h a) (hOp : op ≠ .remove a) : joinedAt (h ++ [op]) a = joinedAt h a := by
  have hLen := length_sinceRemoved_le h a
  rw [joinedAt, sinceRemoved_concat hOp,
    List.idxOf_append_of_mem (lastAdded_iff_mem.mp ha), joinedAt]
  simp only [List.length_append, List.length_singleton]
  omega

/-- An object that joins takes the last place. -/
theorem joinedAt_concat_add {h : List (RegistryOp α)} {a : α} (ha : ¬ LastAdded h a) :
    joinedAt (h ++ [.add a]) a = h.length := by
  have hLen := length_sinceRemoved_le h a
  rw [joinedAt, sinceRemoved_concat (by simp),
    List.idxOf_append_of_notMem (mt lastAdded_iff_mem.mpr ha)]
  simp only [List.length_append, List.length_singleton, List.idxOf_cons_self]
  omega

/-! ## The roster -/

theorem isRoster_nil : IsRoster ([] : List (RegistryOp α)) [] :=
  ⟨List.nodup_nil, fun a => by simp [LastAdded], List.Pairwise.nil⟩

namespace IsRoster

variable {h : List (RegistryOp α)} {l l' : List α}

/-- The history determines the members and their order. -/
theorem unique (hl : IsRoster h l) (hl' : IsRoster h l') : l = l' := by
  have hPerm : l.Perm l' := (List.perm_ext_iff_of_nodup hl.nodup hl'.nodup).mpr fun a =>
    (hl.mem_iff a).trans (hl'.mem_iff a).symm
  refine hPerm.eq_of_pairwise (fun a b _ _ hab hba => ?_) hl.ordered hl'.ordered
  exact absurd hab (Nat.lt_asymm hba)

/-- Operations on other objects move nobody. -/
theorem ordered_concat (hl : IsRoster h l) {op : RegistryOp α} {k : List α}
    (hk : k.Sublist l) (hOp : ∀ a ∈ k, op ≠ .remove a) :
    k.Pairwise fun a b => joinedAt (h ++ [op]) a < joinedAt (h ++ [op]) b := by
  refine (hl.ordered.sublist hk).imp_of_mem fun {a b} ha hb hab => ?_
  rw [joinedAt_concat ((hl.mem_iff a).mp (hk.subset ha)).2 (hOp a ha),
    joinedAt_concat ((hl.mem_iff b).mp (hk.subset hb)).2 (hOp b hb)]
  exact hab

theorem apply_add (hl : IsRoster h l) {a : α} (hAlive : Alive h a) :
    IsRoster (h ++ [.add a]) (RegistryOp.apply (.add a) l) := by
  have hOrd : l.Pairwise fun b c => joinedAt (h ++ [.add a]) b < joinedAt (h ++ [.add a]) c :=
    hl.ordered_concat (List.Sublist.refl l) (by simp)
  have hMem : ∀ b, (Alive (h ++ [.add a]) b ∧ LastAdded (h ++ [.add a]) b) ↔ b = a ∨ b ∈ l := by
    intro b
    rw [alive_concat, lastAdded_concat, hl.mem_iff b]
    by_cases hb : b = a
    · subst hb
      simp [hAlive]
    · have hb' : ¬ a = b := fun he => hb he.symm
      simp [hb, hb']
  by_cases ha : a ∈ l
  · rw [RegistryOp.apply, if_pos ha]
    refine ⟨hl.nodup, fun b => ?_, hOrd⟩
    rw [hMem b]
    constructor
    · exact Or.inr
    · rintro (rfl | hb)
      · exact ha
      · exact hb
  · rw [RegistryOp.apply, if_neg ha]
    refine ⟨hl.nodup.append (List.nodup_singleton a) (by simpa using ha), fun b => ?_, ?_⟩
    · rw [hMem b, List.mem_append, List.mem_singleton, or_comm]
    · -- The newcomer takes position `h.length`, after everybody who is there.
      have hNew : ¬ LastAdded h a := fun hLast => ha ((hl.mem_iff a).mpr ⟨hAlive, hLast⟩)
      refine List.pairwise_append.mpr ⟨hOrd, List.pairwise_singleton _ a, fun b hb c hc => ?_⟩
      obtain rfl : c = a := by simpa using hc
      have hbLast := ((hl.mem_iff b).mp hb).2
      rw [joinedAt_concat_add hNew, joinedAt_concat hbLast (by simp)]
      exact joinedAt_lt hbLast

theorem apply_remove (hl : IsRoster h l) (a : α) :
    IsRoster (h ++ [.remove a]) (RegistryOp.apply (.remove a) l) := by
  refine ⟨hl.nodup.filter _, fun b => ?_, ?_⟩
  · rw [alive_concat, lastAdded_concat, RegistryOp.apply, List.mem_filter, hl.mem_iff b]
    by_cases hb : b = a
    · simp [hb]
    · simp [hb, Ne.symm hb]
  · apply hl.ordered_concat List.filter_sublist
    intro b hb
    have hne : b ≠ a := by simpa using (List.mem_filter.mp hb).2
    simpa using hne.symm

theorem apply_dealloc (hl : IsRoster h l) (a : α) :
    IsRoster (h ++ [.dealloc a]) (RegistryOp.apply (.dealloc a) l) := by
  refine ⟨hl.nodup.filter _, fun b => ?_, ?_⟩
  · rw [alive_concat, lastAdded_concat, RegistryOp.apply, List.mem_filter, hl.mem_iff b]
    by_cases hb : b = a
    · simp [hb]
    · simp [hb, Ne.symm hb]
  · exact hl.ordered_concat List.filter_sublist (by simp)

/-- One operation at a time; a deallocated object cannot be added. -/
theorem apply (hl : IsRoster h l) (op : RegistryOp α) (hAlive : ∀ a, op = .add a → Alive h a) :
    IsRoster (h ++ [op]) (op.apply l) := by
  cases op with
  | add a => exact hl.apply_add (hAlive a rfl)
  | remove a => exact hl.apply_remove a
  | dealloc a => exact hl.apply_dealloc a

end IsRoster

end DecidableEq

end LeigodAPM.Foundation
