import LeigodAPM.CrashEye.Statics

/-!
# The delegates a crash loop calls

The list `delegates` should hold the objects whose last operation was `add`, in the order
in which they joined (`IsRoster`). `add` and `remove` look for their object by `hash`, so
they do this only as long as the hash tells the object from the others in the list.

* `distinct_step`: no two delegates in the list ever share a hash.
* `roster_iff_no_clash`: along a run the list is exact in every state exactly when no
  step of the run is given an object whose hash another delegate in the list has.
-/

namespace LeigodAPM.CrashEye

open Foundation Machine

variable {F Obj : Type*} [NSObjectProtocol Obj]

/-- No two delegates in the list have the same hash. -/
def Distinct (s : CrashEye F Obj) : Prop := (s.notified.map NSObjectProtocol.hash).Nodup

theorem Distinct.eq {s : CrashEye F Obj} (h : Distinct s) {d e : Obj} (hd : d ∈ s.notified)
    (he : e ∈ s.notified) (hHash : NSObjectProtocol.hash d = NSObjectProtocol.hash e) : d = e :=
  List.inj_on_of_nodup_map h hd he hHash

theorem Distinct.nodup {s : CrashEye F Obj} (h : Distinct s) : s.notified.Nodup :=
  List.Nodup.of_map _ h

/-- The operation is given an object whose hash another delegate in the list has. -/
def Clashes (s : CrashEye F Obj) (op : RegistryOp Obj) : Prop :=
  ∃ d, (op = .add d ∨ op = .remove d) ∧
    ∃ e ∈ s.notified, e ≠ d ∧ NSObjectProtocol.hash e = NSObjectProtocol.hash d

section Lookup

variable {s : CrashEye F Obj} {d : Obj}

theorem mem_kept {e : Obj} : e ∈ s.kept d ↔
    e ∈ s.notified ∧ NSObjectProtocol.hash e ≠ NSObjectProtocol.hash d := by
  simp [kept]

theorem hashTaken_iff_mem (h : ¬ Clashes s (.add d)) : s.HashTaken d ↔ d ∈ s.notified := by
  constructor
  · rintro ⟨e, he, hHash⟩
    by_contra hd
    have hne : e ≠ d := fun hEq => hd (hEq ▸ he)
    exact h ⟨d, Or.inl rfl, e, he, hne, hHash⟩
  · intro hd
    exact ⟨d, hd, rfl⟩

theorem kept_eq_filter [DecidableEq Obj] (h : ¬ Clashes s (.remove d)) :
    s.kept d = s.notified.filter (· ≠ d) := by
  apply List.filter_congr
  intro e he
  simp only [decide_eq_decide]
  constructor
  · rintro hHash rfl
    exact hHash rfl
  · intro hne hHash
    exact h ⟨d, Or.inr rfl, e, he, hne, hHash⟩

end Lookup

variable [DecidableEq Obj] {s s' : CrashEye F Obj} {op : RegistryOp Obj}

theorem distinct_step (h : Distinct s) (hStep : step s op = some s') : Distinct s' := by
  obtain ⟨d, -, -, rfl⟩ | ⟨d, -, -, rfl⟩ | ⟨d, -, -, rfl⟩ := step_cases hStep
  · unfold Distinct
    rw [notified_add]
    split
    · exact h
    · rename_i hFree
      rw [List.map_append, List.map_singleton]
      refine h.append (List.nodup_singleton _) (List.disjoint_singleton.mpr fun hMem => ?_)
      obtain ⟨e, he, hHash⟩ := List.mem_map.mp hMem
      exact hFree ⟨e, he, hHash⟩
  · unfold Distinct
    rw [notified_remove]
    exact h.sublist (List.filter_sublist.map _)
  · unfold Distinct
    rw [notified_dealloc]
    exact h.sublist (List.filter_sublist.map _)

theorem always_distinct (handler : Option F) (disposition : Int32 → Disposition F)
    (ops : List (RegistryOp Obj)) :
    step.Always (fun _ s => Distinct s) (launched handler disposition) ops :=
  always_of_step (I := fun _ s => Distinct s) List.nodup_nil
    fun _ _ _ _ h hStep => distinct_step h hStep

/-- Without a clash the list changes as a list compared by identity does. -/
theorem notified_step (h : ¬ Clashes s op) (hStep : step s op = some s') :
    s'.notified = op.apply s.notified := by
  obtain ⟨d, rfl, -, rfl⟩ | ⟨d, rfl, -, rfl⟩ | ⟨d, rfl, -, rfl⟩ := step_cases hStep
  · rw [notified_add, RegistryOp.apply]
    simp only [hashTaken_iff_mem h]
  · rw [notified_remove, kept_eq_filter h, RegistryOp.apply]
  · rw [notified_dealloc, RegistryOp.apply]

/-- A clash makes the list differ from it: the object is not appended, or another one
disappears. -/
theorem notified_step_ne (hDistinct : Distinct s) (h : Clashes s op)
    (hStep : step s op = some s') : s'.notified ≠ op.apply s.notified := by
  obtain ⟨d, hOp, e, he, hne, hHash⟩ := h
  obtain ⟨a, rfl, -, rfl⟩ | ⟨a, rfl, -, rfl⟩ | ⟨a, rfl, -, rfl⟩ := step_cases hStep
  · obtain rfl : a = d := by simpa using hOp
    have hd : a ∉ s.notified := fun ha => hne (hDistinct.eq he ha hHash)
    rw [notified_add, if_pos ⟨e, he, hHash⟩, RegistryOp.apply, if_neg hd]
    intro hEq
    simpa using congrArg List.length hEq
  · obtain rfl : a = d := by simpa using hOp
    rw [notified_remove, RegistryOp.apply]
    intro hEq
    have hKept : e ∈ s.kept a := by
      rw [hEq]
      simpa using ⟨he, hne⟩
    exact (mem_kept.mp hKept).2 hHash
  · simp at hOp

/-- The objects that are gone are those the history deallocated. -/
theorem deallocated_step {h : List (RegistryOp Obj)}
    (hGone : ∀ d, d ∈ s.deallocated ↔ ¬ Alive h d) (hStep : step s op = some s') :
    ∀ d, d ∈ s'.deallocated ↔ ¬ Alive (h ++ [op]) d := by
  intro d
  rw [alive_concat]
  obtain ⟨a, rfl, -, rfl⟩ | ⟨a, rfl, -, rfl⟩ | ⟨a, rfl, -, rfl⟩ := step_cases hStep
  · simpa using hGone d
  · simpa using hGone d
  · simp only [dealloc, List.mem_cons, hGone d]
    by_cases hd : d = a
    · simp [hd]
    · simp [hd, Ne.symm hd]

theorem alive_of_step {h : List (RegistryOp Obj)} (hGone : ∀ d, d ∈ s.deallocated ↔ ¬ Alive h d)
    (hStep : step s op = some s') (d : Obj) (hOp : op = .add d) : Alive h d := by
  subst hOp
  obtain ⟨a, hEq, ha, -⟩ | ⟨a, hEq, -, -⟩ | ⟨a, hEq, -, -⟩ := step_cases hStep
  · cases hEq
    exact not_not.mp fun hDead => ha ((hGone d).mpr hDead)
  · cases hEq
  · cases hEq

/-- **The registry.** Along a run the crash loop would call exactly the objects that are
alive and were last added, each once and in the order of joining, in every state, exactly
when no operation of the run clashes. -/
theorem roster_iff_no_clash (handler : Option F) (disposition : Int32 → Disposition F)
    (ops : List (RegistryOp Obj)) :
    step.Always (fun h s => IsRoster h s.notified) (launched handler disposition) ops ↔
      step.EachStep (fun _ s op => ¬ Clashes s op) (launched handler disposition) ops := by
  refine always_iff_eachStep
    (I := fun h s => IsRoster h s.notified ∧ Distinct s ∧ ∀ d, d ∈ s.deallocated ↔ ¬ Alive h d)
    ⟨isRoster_nil, List.nodup_nil, ?_⟩ (fun _ _ hI => hI.1) ?_ ?_
  · simp [launched, Alive]
  · rintro h s op s' ⟨hRoster, hDistinct, hGone⟩ hClash hStep
    refine ⟨?_, distinct_step hDistinct hStep, deallocated_step hGone hStep⟩
    rw [notified_step hClash hStep]
    exact hRoster.apply op (alive_of_step hGone hStep)
  · rintro h s op s' ⟨hRoster, hDistinct, hGone⟩ hClash hStep hRoster'
    -- The history determines the roster, and a clash produces another list.
    have hEq := hRoster'.unique (hRoster.apply op (alive_of_step hGone hStep))
    exact notified_step_ne hDistinct (not_not.mp hClash) hStep hEq

/-- Two live delegates with one hash: the second is never called. -/
theorem equal_hash_not_registered :
    ¬ step.Always (fun h s => IsRoster h s.notified)
      (launched none fun _ => .sigDfl : CrashEye ℕ NSObject) [.add ⟨0, 7⟩, .add ⟨1, 7⟩] := by
  intro hAlways
  have hRoster := hAlways _ _ (List.prefix_refl _) rfl
  have hMem := (hRoster.mem_iff ⟨1, 7⟩).mpr ⟨by simp [Alive], by
    refine ⟨[.add ⟨0, 7⟩], _, [], rfl, rfl, by simp⟩⟩
  revert hMem
  decide

end LeigodAPM.CrashEye
