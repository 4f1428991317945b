import LeigodAPM.Foundation.Run
import Mathlib.Algebra.Order.BigOperators.Group.List
import Mathlib.Algebra.Order.Ring.Rat
import Mathlib.Tactic.Linarith

/-!
# The network byte total

`Store` adds up the bytes of the network and tells its one subscriber the new total. A
subscriber that comes later is told the total at once, if it is positive. A length that is
not known is negative; the clamp takes it for `-1`, and the total goes down by one.

* `countsBytes_iff`: in every run the total counts only bytes, and the subscriber knows it,
  exactly when no length of the run is negative.
-/

namespace LeigodAPM

open Foundation Machine

/-- `S` is the type of the subscribers; `given` is what they have been told so far. -/
structure Store (S : Type) where
  networkMB : ℚ
  change : Option S
  given : List (S × ℚ)

namespace Store

variable {S : Type}

def new : Store S := ⟨0, none, []⟩

/-- `self.change?(self.networkMB)` -/
def callChange (s : Store S) : Store S :=
  { s with given := s.given ++ s.change.toList.map fun change => (change, s.networkMB) }

def addNetworkByte (s : Store S) (byte : Int64) : Store S :=
  callChange { s with networkMB := s.networkMB + (max byte (-1)).toInt }

def networkByteDidChange (s : Store S) (change : S) : Store S :=
  let s := { s with change := some change }
  if s.networkMB > 0 then s.callChange else s

inductive Call (S : Type)
  | addNetworkByte (byte : Int64)
  | networkByteDidChange (change : S)

def step : Machine (Store S) (Call S)
  | s, .addNetworkByte byte => some (s.addNetworkByte byte)
  | s, .networkByteDidChange change => some (s.networkByteDidChange change)

/-- The bytes of a call; a negative length is not known and counts as none. -/
def Call.bytes : Call S → ℚ
  | .addNetworkByte byte => max byte.toInt 0
  | .networkByteDidChange _ => 0

def total (calls : List (Call S)) : ℚ := (calls.map Call.bytes).sum

/-- The total is the number of bytes, and the subscriber has last been told that number. -/
structure CountsBytes (h : List (Call S)) (s : Store S) : Prop where
  networkMB : s.networkMB = total h
  told : ∀ change, s.change = some change → 0 < s.networkMB →
    s.given.getLast? = some (change, s.networkMB)

/-- The length is known. -/
def Call.Known : Call S → Prop
  | .addNetworkByte byte => 0 ≤ byte.toInt
  | .networkByteDidChange _ => True

@[simp] theorem callChange_networkMB (s : Store S) : s.callChange.networkMB = s.networkMB := rfl

/-- After a call the subscriber has last been told the total. -/
theorem callChange_getLast? {s : Store S} {change : S} (hChange : s.change = some change) :
    s.callChange.given.getLast? = some (change, s.networkMB) := by
  simp [callChange, hChange]

theorem bytes_nonneg (call : Call S) : 0 ≤ call.bytes := by
  cases call with
  | addNetworkByte byte => exact le_max_right _ _
  | networkByteDidChange change => exact le_rfl

theorem total_concat (h : List (Call S)) (call : Call S) :
    total (h ++ [call]) = total h + call.bytes := by simp [total]

/-- The bytes of more calls are no fewer. -/
theorem total_le_total {h h' : List (Call S)} (hPre : h <+: h') : total h ≤ total h' := by
  obtain ⟨rest, rfl⟩ := hPre
  have hRest : 0 ≤ total rest := List.sum_nonneg fun x hx => by
    obtain ⟨call, -, rfl⟩ := List.mem_map.mp hx
    exact bytes_nonneg call
  have hSum : total (h ++ rest) = total h + total rest := by simp [total]
  linarith

theorem toInt_max (byte : Int64) : (max byte (-1)).toInt = max byte.toInt (-1) := by
  have hNeg : (-1 : Int64).toInt = -1 := rfl
  show (if byte ≤ -1 then -1 else byte).toInt = _
  by_cases hLe : byte ≤ -1
  · rw [if_pos hLe, hNeg, max_eq_right]
    rwa [← hNeg, ← Int64.le_iff_toInt_le]
  · have hNot : ¬ byte.toInt ≤ -1 := by rwa [← hNeg, ← Int64.le_iff_toInt_le]
    rw [if_neg hLe, max_eq_left (not_le.mp hNot).le]

/-- What a call does to the total. The clamp lets the total go down by one. -/
theorem step_networkMB {s s' : Store S} {call : Call S} (hStep : step s call = some s') :
    (call.Known ∧ s'.networkMB = s.networkMB + call.bytes) ∨
      (¬ call.Known ∧ s'.networkMB = s.networkMB - 1) := by
  cases call with
  | addNetworkByte byte =>
    obtain rfl := Option.some.inj hStep
    rw [addNetworkByte, callChange_networkMB, toInt_max, Call.bytes, Call.Known]
    by_cases hKnown : 0 ≤ byte.toInt
    · refine Or.inl ⟨hKnown, ?_⟩
      rw [max_eq_left (by omega), max_eq_left (by exact_mod_cast hKnown)]
    · refine Or.inr ⟨hKnown, ?_⟩
      rw [max_eq_right (by omega)]
      push_cast
      exact (sub_eq_add_neg _ _).symm
  | networkByteDidChange change =>
    obtain rfl := Option.some.inj hStep
    refine Or.inl ⟨trivial, ?_⟩
    rw [networkByteDidChange, Call.bytes, add_zero]
    split
    · rfl
    · rfl

/-- Whatever the call, the subscriber knows the total afterwards. -/
theorem told_of_step {s s' : Store S} {call : Call S} (hStep : step s call = some s')
    {change : S} (hChange : s'.change = some change) (hPos : 0 < s'.networkMB) :
    s'.given.getLast? = some (change, s'.networkMB) := by
  cases call with
  | addNetworkByte byte =>
    obtain rfl := Option.some.inj hStep
    exact callChange_getLast? hChange
  | networkByteDidChange change' =>
    obtain rfl := Option.some.inj hStep
    rw [networkByteDidChange] at hChange hPos ⊢
    by_cases hReplay : s.networkMB > 0
    · rw [if_pos hReplay] at hChange ⊢
      exact callChange_getLast? hChange
    · rw [if_neg hReplay] at hPos
      exact absurd hPos hReplay

section Calls

variable {h : List (Call S)} {s s' : Store S} {call : Call S}

theorem CountsBytes.step (hCounts : CountsBytes h s) (hKnown : call.Known)
    (hStep : step s call = some s') : CountsBytes (h ++ [call]) s' where
  networkMB := by
    rcases step_networkMB hStep with ⟨-, hSum⟩ | ⟨hNot, -⟩
    · rw [hSum, hCounts.networkMB, total_concat]
    · exact absurd hKnown hNot
  told _ hChange hPos := told_of_step hStep hChange hPos

/-- A call with an unknown length loses a byte at once. -/
theorem CountsBytes.not_step (hCounts : CountsBytes h s) (hNot : ¬ call.Known)
    (hStep : Store.step s call = some s') : ¬ CountsBytes (h ++ [call]) s' := by
  intro hAfter
  have hNonneg := bytes_nonneg call
  have hSum := hAfter.networkMB
  rw [total_concat, ← hCounts.networkMB] at hSum
  rcases step_networkMB hStep with ⟨hKnown, -⟩ | ⟨-, hLoss⟩
  · exact hNot hKnown
  · linarith

end Calls

/-- **The network total.** In every state of a run the total is the sum of the known lengths,
is not negative, does not go down again, and the current subscriber has last been told it when
it is positive, exactly when no length of the run is negative. -/
theorem countsBytes_iff (calls : List (Call S)) :
    (step.Always CountsBytes new calls ∧
      ∀ h h' s s', h <+: h' → h' <+: calls → step.run new h = some s → step.run new h' = some s' →
        0 ≤ s.networkMB ∧ s.networkMB ≤ s'.networkMB) ↔
      ∀ call ∈ calls, call.Known := by
  have hTotal : ∀ (s : Store S) call, ∃ s', step s call = some s' := by
    intro s call
    cases call with
    | addNetworkByte byte => exact ⟨_, rfl⟩
    | networkByteDidChange change => exact ⟨_, rfl⟩
  have hNew : CountsBytes [] (new : Store S) :=
    ⟨rfl, fun _ hChange => absurd hChange (Option.some_ne_none _).symm⟩
  have hIff : step.Always CountsBytes new calls ↔ ∀ call ∈ calls, call.Known := by
    rw [← eachStep_iff_forall_mem hTotal new]
    refine always_iff_eachStep (I := CountsBytes) hNew ?_ ?_ ?_
    · intro h s hCounts
      exact hCounts
    · intro h s call s' hCounts hKnown hStep
      exact hCounts.step hKnown hStep
    · intro h s call s' hCounts hNot hStep
      exact hCounts.not_step hNot hStep
  constructor
  · intro hBoth
    exact hIff.mp hBoth.1
  · intro hKnown
    have hAlways := hIff.mpr hKnown
    refine ⟨hAlways, fun h h' s s' hPre hPre' hRun hRun' => ?_⟩
    rw [(hAlways h s (hPre.trans hPre') hRun).networkMB, (hAlways h' s' hPre' hRun').networkMB]
    exact ⟨total_le_total (List.nil_prefix), total_le_total hPre⟩

/-- A response of unknown length takes a byte away. -/
theorem unknown_length_counted :
    ¬ step.Always CountsBytes (new : Store Unit) [.addNetworkByte (-1)] := by
  intro hAlways
  have hCounts := hAlways _ _ (List.prefix_refl _) rfl
  exact absurd hCounts.networkMB (by decide +kernel)

end Store

end LeigodAPM
