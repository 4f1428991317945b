import Mathlib.Data.List.Basic
import Mathlib.Data.List.Infix
import Mathlib.Order.Basic

/-!
# Runs of labelled machines

A machine is a partial step function labelled by events. `run` executes a list of
events; `none` means that some event of the list was not possible. Properties of a
run are stated about its prefixes: `Always` speaks about every state that is reached,
together with the events that led to it, and `EachStep` about every step that is taken.

* `always_of_eachStep`: the invariant rule. One step lemma, under a condition on the
  steps, gives the property at every state reached.
* `always_iff_eachStep`: the exact rule. When every step outside the condition breaks
  the property at once, the condition on the steps is also necessary.
* `always_outputs`: the invariant rule with what the steps have put out, in the order of the run.
* `eachStep_iff_forall_mem`: of a machine that never stops every event is taken.
* `Refines.run`: a machine refines a specification, which is a function on its own states, when
  one step keeps the two related.
* `Since p q`: in the history some event satisfied `p` and no later one satisfied `q`.
-/

namespace LeigodAPM.Foundation

/-- A labelled machine; `none` where the event is not possible in the state. -/
abbrev Machine (σ ε : Type*) := σ → ε → Option σ

namespace Machine

variable {σ ε : Type*} {M : Machine σ ε}

/-- The state after all the events, when each of them is possible in turn. -/
def run (M : Machine σ ε) : σ → List ε → Option σ
  | s, [] => some s
  | s, e :: es => (M s e).bind fun s' => M.run s' es

/-- `P` holds at every state the run reaches, with the events executed so far. -/
def Always (M : Machine σ ε) (P : List ε → σ → Prop) (s : σ) (es : List ε) : Prop :=
  ∀ h s', h <+: es → M.run s h = some s' → P h s'

/-- `C` holds of every step the run takes: of the events before it, the state in which
it is taken and its event. -/
def EachStep (M : Machine σ ε) (C : List ε → σ → ε → Prop) (s : σ) (es : List ε) : Prop :=
  ∀ h e s₁ s₂, h ++ [e] <+: es → M.run s h = some s₁ → M s₁ e = some s₂ → C h s₁ e

/-- `C` holds of every step the run attempts, also of one that is not possible. -/
def EachAttempt (M : Machine σ ε) (C : σ → ε → Prop) (s : σ) (es : List ε) : Prop :=
  ∀ h e s₁, h ++ [e] <+: es → M.run s h = some s₁ → C s₁ e

/-! ## Executing events -/

@[simp] theorem run_nil (s : σ) : M.run s [] = some s := rfl

@[simp] theorem run_cons (s : σ) (e : ε) (es : List ε) :
    M.run s (e :: es) = (M s e).bind fun s' => M.run s' es := rfl

theorem run_append (s : σ) (es es' : List ε) :
    M.run s (es ++ es') = (M.run s es).bind fun s' => M.run s' es' := by
  induction es generalizing s with
  | nil => rfl
  | cons e es ih =>
    simp only [List.cons_append, run_cons]
    cases M s e with
    | none => rfl
    | some s' => exact ih s'

theorem run_concat (s : σ) (es : List ε) (e : ε) :
    M.run s (es ++ [e]) = (M.run s es).bind fun s' => M s' e := by
  rw [run_append]
  congr 1
  funext s'
  simp

/-- The last step of a nonempty run. -/
theorem run_concat_some {s s₂ : σ} {es : List ε} {e : ε}
    (hRun : M.run s (es ++ [e]) = some s₂) :
    ∃ s₁, M.run s es = some s₁ ∧ M s₁ e = some s₂ := by
  rw [run_concat] at hRun
  exact Option.bind_eq_some_iff.mp hRun

@[simp] theorem eachAttempt_nil {C : σ → ε → Prop} (s : σ) : M.EachAttempt C s [] := by
  intro h e s₁ hh _
  simp at hh

theorem eachAttempt_cons {C : σ → ε → Prop} {s : σ} {e : ε} {es : List ε} :
    M.EachAttempt C s (e :: es) ↔ C s e ∧ ∀ s', M s e = some s' → M.EachAttempt C s' es := by
  constructor
  · intro hEach
    refine ⟨hEach [] e s (by simp) rfl, fun s' hStep h e' s₁ hh hRun => ?_⟩
    refine hEach (e :: h) e' s₁ (List.cons_prefix_cons.mpr ⟨rfl, hh⟩) ?_
    rw [run_cons, hStep]
    exact hRun
  · rintro ⟨hFirst, hRest⟩ h e' s₁ hh hRun
    cases h with
    | nil =>
      obtain ⟨rfl, -⟩ := List.cons_prefix_cons.mp hh
      obtain rfl := Option.some.inj hRun
      exact hFirst
    | cons e₀ h =>
      obtain ⟨rfl, hh'⟩ := List.cons_prefix_cons.mp hh
      obtain ⟨s', hStep, hRun'⟩ := Option.bind_eq_some_iff.mp hRun
      exact hRest s' hStep h e' s₁ hh' hRun'

/-- Whether the condition holds of every attempt can be computed along the run. -/
instance decidableEachAttempt {C : σ → ε → Prop} [∀ s e, Decidable (C s e)] :
    ∀ (s : σ) (es : List ε), Decidable (M.EachAttempt C s es)
  | s, [] => isTrue (eachAttempt_nil s)
  | s, e :: es =>
    match hStep : M s e with
    | none => decidable_of_iff (C s e) (by simp [eachAttempt_cons, hStep])
    | some s' =>
      have := decidableEachAttempt (C := C) s' es
      decidable_of_iff (C s e ∧ M.EachAttempt C s' es) (by simp [eachAttempt_cons, hStep])

section Rules

variable {I P : List ε → σ → Prop} {C : List ε → σ → ε → Prop} {s : σ} {es : List ε}

theorem Always.mono {Q : List ε → σ → Prop} (hAlways : M.Always P s es)
    (hPQ : ∀ h s', P h s' → Q h s') : M.Always Q s es :=
  fun h s' hh hRun => hPQ h s' (hAlways h s' hh hRun)

/-- The state at the end of the run is one of the states it reaches. -/
theorem Always.last (hAlways : M.Always P s es) {s' : σ} (hRun : M.run s es = some s') :
    P es s' := hAlways es s' (List.prefix_refl es) hRun

/-- **Invariant rule.** The induction is on the events executed so far, so that the
condition of the last step may speak about all events before it. -/
theorem always_of_eachStep (h0 : I [] s)
    (hStep : ∀ h s₁ e s₂, I h s₁ → C h s₁ e → M s₁ e = some s₂ → I (h ++ [e]) s₂)
    (hSteps : M.EachStep C s es) : M.Always I s es := by
  intro h
  induction h using List.reverseRecOn with
  | nil =>
    intro s' _ hRun
    obtain rfl : s = s' := Option.some.inj hRun
    exact h0
  | append_singleton h e ih =>
    intro s₂ hh hRun
    obtain ⟨s₁, hRun₁, hLast⟩ := run_concat_some hRun
    have hI : I h s₁ := ih s₁ ((List.prefix_append h [e]).trans hh) hRun₁
    exact hStep h s₁ e s₂ hI (hSteps h e s₁ s₂ hh hRun₁ hLast) hLast

/-- The invariant rule without a condition on the steps. -/
theorem always_of_step (h0 : I [] s)
    (hStep : ∀ h s₁ e s₂, I h s₁ → M s₁ e = some s₂ → I (h ++ [e]) s₂) :
    M.Always I s es :=
  always_of_eachStep (C := fun _ _ _ => True) h0
    (fun h s₁ e s₂ hI _ hLast => hStep h s₁ e s₂ hI hLast) (fun _ _ _ _ _ _ _ => trivial)

/-- **Exact rule.** `P` holds along the run exactly when every step meets `C`, if steps
within `C` keep an invariant that contains `P` and a step outside `C` breaks `P`. -/
theorem always_iff_eachStep (h0 : I [] s) (hIP : ∀ h s', I h s' → P h s')
    (hStep : ∀ h s₁ e s₂, I h s₁ → C h s₁ e → M s₁ e = some s₂ → I (h ++ [e]) s₂)
    (hBreak : ∀ h s₁ e s₂, I h s₁ → ¬ C h s₁ e → M s₁ e = some s₂ → ¬ P (h ++ [e]) s₂) :
    M.Always P s es ↔ M.EachStep C s es := by
  constructor
  · intro hAlways h
    -- Up to the first step outside `C` the invariant holds, and that step breaks `P`.
    suffices hI : ∀ h, h <+: es → ∀ s', M.run s h = some s' → I h s' by
      intro e s₁ s₂ hh hRun hLast
      by_contra hC
      have hI₁ := hI h ((List.prefix_append h [e]).trans hh) s₁ hRun
      refine hBreak h s₁ e s₂ hI₁ hC hLast (hAlways _ s₂ hh ?_)
      rw [run_concat, hRun]
      exact hLast
    intro h
    induction h using List.reverseRecOn with
    | nil =>
      intro _ s' hRun
      obtain rfl : s = s' := Option.some.inj hRun
      exact h0
    | append_singleton h e ih =>
      intro hh s₂ hRun
      obtain ⟨s₁, hRun₁, hLast⟩ := run_concat_some hRun
      have hI₁ := ih ((List.prefix_append h [e]).trans hh) s₁ hRun₁
      by_cases hC : C h s₁ e
      · exact hStep h s₁ e s₂ hI₁ hC hLast
      · exact absurd (hAlways _ s₂ hh hRun) (hBreak h s₁ e s₂ hI₁ hC hLast)
  · intro hSteps
    exact (always_of_eachStep h0 hStep hSteps).mono hIP

end Rules

/-! ## Outputs -/

section Outputs

variable {O : Type*} {out : σ → ε → List O} {s : σ} {es : List ε}

/-- What the steps of a run put out, in the order of the run. -/
def outputs (M : Machine σ ε) (out : σ → ε → List O) : σ → List ε → List O
  | _, [] => []
  | s, e :: es => out s e ++ (M s e).elim [] fun s' => M.outputs out s' es

theorem outputs_concat {s' : σ} (hRun : M.run s es = some s') (e : ε) :
    M.outputs out s (es ++ [e]) = M.outputs out s es ++ out s' e := by
  induction es generalizing s with
  | nil =>
    obtain rfl := Option.some.inj hRun
    cases hStep : M s e <;> simp [outputs, hStep]
  | cons e₀ es ih =>
    obtain ⟨s₁, hStep, hRest⟩ := Option.bind_eq_some_iff.mp hRun
    simp only [List.cons_append, outputs, hStep, Option.elim_some, ih hRest, List.append_assoc]

/-- The invariant rule with the outputs so far. -/
theorem always_outputs {I : List O → List ε → σ → Prop} (h0 : I [] [] s)
    (hStep : ∀ o h s₁ e s₂, I o h s₁ → M s₁ e = some s₂ → I (o ++ out s₁ e) (h ++ [e]) s₂) :
    M.Always (fun h s' => I (M.outputs out s h) h s') s es := by
  intro h
  induction h using List.reverseRecOn with
  | nil =>
    intro s' _ hRun
    obtain rfl := Option.some.inj hRun
    exact h0
  | append_singleton h e ih =>
    intro s₂ hh hRun
    obtain ⟨s₁, hRun₁, hLast⟩ := run_concat_some hRun
    have hI := ih s₁ ((List.prefix_append h [e]).trans hh) hRun₁
    rw [outputs_concat hRun₁]
    exact hStep _ h s₁ e s₂ hI hLast

end Outputs

/-! ## Machines that never stop -/

section Total

variable {C : ε → Prop} {es : List ε}

theorem exists_run (hTotal : ∀ s e, ∃ s', M s e = some s') (s : σ) (es : List ε) :
    ∃ s', M.run s es = some s' := by
  induction es generalizing s with
  | nil => exact ⟨s, rfl⟩
  | cons e es ih =>
    obtain ⟨s₁, hStep⟩ := hTotal s e
    obtain ⟨s', hRun⟩ := ih s₁
    exact ⟨s', by rw [run_cons, hStep]; exact hRun⟩

theorem eachStep_iff_forall_mem (hTotal : ∀ s e, ∃ s', M s e = some s') (s : σ) :
    M.EachStep (fun _ _ e => C e) s es ↔ ∀ e ∈ es, C e := by
  constructor
  · intro hEach e he
    obtain ⟨h, t, rfl⟩ := List.append_of_mem he
    obtain ⟨s₁, hRun⟩ := exists_run hTotal s h
    obtain ⟨s₂, hStep⟩ := hTotal s₁ e
    exact hEach h e s₁ s₂ ⟨t, by simp⟩ hRun hStep
  · intro hAll h e _ _ hh _ _
    exact hAll e (hh.subset (by simp))

end Total

end Machine

/-! ## Refinement -/

section Refinement

variable {σ τ ε : Type*} {M : Machine σ ε} {spec : τ → ε → τ} {C : ε → Prop} {R : σ → τ → Prop}

/-- A step of `M` with an event within `C` keeps the states related by `R`. -/
structure Refines (M : Machine σ ε) (spec : τ → ε → τ) (C : ε → Prop) (R : σ → τ → Prop) :
    Prop where
  step : ∀ {s t e s'}, R s t → C e → M s e = some s' → R s' (spec t e)

theorem Refines.run (hRefines : Refines M spec C R) {s s' : σ} {t : τ} {es : List ε} (hR : R s t)
    (hEvents : ∀ e ∈ es, C e) (hRun : M.run s es = some s') : R s' (es.foldl spec t) := by
  induction es generalizing s t with
  | nil =>
    obtain rfl := Option.some.inj hRun
    exact hR
  | cons e es ih =>
    obtain ⟨s₁, hStep, hRest⟩ := Option.bind_eq_some_iff.mp hRun
    have hR₁ := hRefines.step hR (hEvents e List.mem_cons_self) hStep
    exact ih hR₁ (fun e' he' => hEvents e' (List.mem_cons_of_mem e he')) hRest

end Refinement

/-! ## Histories -/

section Since

variable {ε : Type*} {p q : ε → Prop}

/-- Some event of the history satisfies `p`, and no event after it satisfies `q`. -/
def Since (p q : ε → Prop) (h : List ε) : Prop :=
  ∃ pre e post, h = pre ++ e :: post ∧ p e ∧ ∀ x ∈ post, ¬ q x

@[simp] theorem not_since_nil : ¬ Since p q [] := by
  rintro ⟨pre, e, post, hEq, _⟩
  simp at hEq

/-- What one more event does to `Since`. -/
theorem since_concat {h : List ε} {e : ε} :
    Since p q (h ++ [e]) ↔ p e ∨ (Since p q h ∧ ¬ q e) := by
  constructor
  · rintro ⟨pre, x, post, hEq, hp, hq⟩
    rcases List.eq_nil_or_concat post with rfl | ⟨post, y, rfl⟩
    · obtain ⟨-, hx⟩ := List.append_inj' hEq rfl
      obtain rfl : e = x := by simpa using hx
      exact Or.inl hp
    · have hEq' : h ++ [e] = (pre ++ x :: post) ++ [y] := by simpa using hEq
      obtain ⟨rfl, hy⟩ := List.append_inj' hEq' rfl
      obtain rfl : e = y := by simpa using hy
      refine Or.inr ⟨⟨pre, x, post, rfl, hp, fun z hz => hq z ?_⟩, hq e ?_⟩ <;> simp_all
  · rintro (hp | ⟨⟨pre, x, post, rfl, hp, hq⟩, hqe⟩)
    · exact ⟨h, e, [], rfl, hp, by simp⟩
    · refine ⟨pre, x, post ++ [e], by simp, hp, fun z hz => ?_⟩
      rcases List.mem_append.mp hz with hz | hz
      · exact hq z hz
      · obtain rfl : z = e := by simpa using hz
        exact hqe

end Since

end LeigodAPM.Foundation
