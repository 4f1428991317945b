import LeigodAPM.Foundation.Tenths

/-!
# Byte sizes on the monitor

`storageCapacity` divides a number of bytes by a power of 1000 and names the unit; the views
show the quotient with one decimal, followed by the unit. A size of exactly one unit is still
shown in the unit below.

* `storageCapacity_unit`: the unit is the one for the number.
* `size_faithful`: a reader of the text is off by at most half a tenth of the unit, and the
  order of two sizes is kept, also when their units differ.
-/

namespace LeigodAPM

open Foundation

/-- The capacity and its unit. -/
def storageCapacity (self : ℚ) : ℚ × String :=
  let radix : ℚ := 1000
  if ¬ self > radix then (self, "B")
  else if ¬ self > radix * radix then (self / radix, "KB")
  else if ¬ self > radix * radix * radix then (self / (radix * radix), "MB")
  else (self / (radix * radix * radix), "GB")

/-- The text of `contentString(_:unit:)`. -/
def MonitorBaseView.contentString (string unit : String) : String := string ++ unit

/-- The text that `configure(byte:)` shows. -/
def MonitorBaseView.configure (byte : ℚ) : String :=
  let str := storageCapacity byte
  contentString (String.ofList (oneDecimal str.1)) str.2

/-- The text of one line of the view of the network flow. -/
def MonitorSysNetFlowView.attributedString (label : String) (byte : UInt32) : String :=
  let storage := storageCapacity byte.toNat
  label ++ "  " ++ String.ofList (oneDecimal storage.1) ++ storage.2

/-! ## Reading a size back -/

def rank (unit : String) : Option ℕ :=
  if unit = "B" then some 0
  else if unit = "KB" then some 1
  else if unit = "MB" then some 2
  else if unit = "GB" then some 3
  else none

/-- The number of bytes that a text denotes. -/
def readSize (text : String) : Option ℚ :=
  (readDecimal text.toList).bind fun p => (rank (String.ofList p.2)).map fun k => p.1 * 1000 ^ k

/-- Both views show a size with the same text. -/
theorem attributedString_eq (label : String) (byte : UInt32) :
    MonitorSysNetFlowView.attributedString label byte =
      label ++ "  " ++ MonitorBaseView.configure byte.toNat := String.append_assoc

section Capacity

variable {x : ℚ}

theorem rank_units : rank "B" = some 0 ∧ rank "KB" = some 1 ∧ rank "MB" = some 2 ∧
    rank "GB" = some 3 := by decide

/-- One branch of the switch over the sizes. -/
theorem unit_of_branch {k : ℕ} {unit : String} (hEq : storageCapacity x = (x / 1000 ^ k, unit))
    (hRank : rank unit = some k) (hUnit : UnitOf 1000 3 k x) :
    ∃ k, storageCapacity x = (x / 1000 ^ k, (storageCapacity x).2) ∧
      rank (storageCapacity x).2 = some k ∧ UnitOf 1000 3 k x := by
  refine ⟨k, ?_, ?_, hUnit⟩
  · rw [hEq]
  · rw [hEq]
    exact hRank

/-- The capacity is the number in its unit. -/
theorem storageCapacity_unit (x : ℚ) :
    ∃ k, storageCapacity x = (x / 1000 ^ k, (storageCapacity x).2) ∧
      rank (storageCapacity x).2 = some k ∧ UnitOf 1000 3 k x := by
  obtain ⟨hRankB, hRankKB, hRankMB, hRankGB⟩ := rank_units
  by_cases hB : x > 1000
  · by_cases hKB : x > 1000 * 1000
    · by_cases hMB : x > 1000 * 1000 * 1000
      · have hEq : storageCapacity x = (x / 1000 ^ 3, "GB") := by
          simp only [storageCapacity, hB, hKB, hMB, not_true, if_false]
          norm_num
        refine unit_of_branch hEq hRankGB ⟨le_rfl, Or.inr ?_, Or.inl rfl⟩
        push_cast
        linarith
      · have hEq : storageCapacity x = (x / 1000 ^ 2, "MB") := by
          simp only [storageCapacity, hB, hKB, hMB, not_true, not_false_eq_true, if_false, if_true]
          norm_num
        refine unit_of_branch hEq hRankMB ⟨by omega, Or.inr ?_, Or.inr ?_⟩
        · push_cast
          linarith
        · push_cast
          linarith
    · have hEq : storageCapacity x = (x / 1000 ^ 1, "KB") := by
        simp only [storageCapacity, hB, hKB, not_true, not_false_eq_true, if_false, if_true,
          pow_one]
      refine unit_of_branch hEq hRankKB ⟨by omega, Or.inr ?_, Or.inr ?_⟩
      · push_cast
        linarith
      · push_cast
        linarith
  · have hEq : storageCapacity x = (x / 1000 ^ 0, "B") := by
      simp only [storageCapacity, hB, not_false_eq_true, if_true, pow_zero, div_one]
    refine unit_of_branch hEq hRankB ⟨by omega, Or.inl rfl, Or.inr ?_⟩
    push_cast
    linarith

/-- The text of a size is read back as the size in its unit, to one decimal. -/
theorem readSize_configure (hx : 0 ≤ x) :
    ∃ k, rank (storageCapacity x).2 = some k ∧ (storageCapacity x).1 * 1000 ^ k = x ∧
      UnitOf 1000 3 k x ∧ readSize (MonitorBaseView.configure x) = some (shownIn 1000 k x) := by
  obtain ⟨k, hEq, hRank, hUnit⟩ := storageCapacity_unit x
  have hCapacity : (storageCapacity x).1 = x / 1000 ^ k := congrArg Prod.fst hEq
  have hNonneg : 0 ≤ (storageCapacity x).1 := by
    rw [hCapacity]
    positivity
  refine ⟨k, hRank, ?_, hUnit, ?_⟩
  · rw [hCapacity]
    field_simp
  · have hText : (MonitorBaseView.configure x).toList =
        oneDecimal (storageCapacity x).1 ++ (storageCapacity x).2.toList := by
      simp [MonitorBaseView.configure, MonitorBaseView.contentString]
    rw [readSize, hText, readDecimal_oneDecimal hNonneg, Option.bind_some,
      String.ofList_toList, hRank, Option.map_some,
      hCapacity]
    rfl

end Capacity

/-- **Displayed sizes.** The capacity is the size in the unit of that rank, the text denotes the
size up to half a tenth of the unit, and a larger size is never shown as a smaller one. -/
theorem size_faithful (x : ℚ) (hx : 0 ≤ x) :
    ∃ k v, rank (storageCapacity x).2 = some k ∧ (storageCapacity x).1 * 1000 ^ k = x ∧
      readSize (MonitorBaseView.configure x) = some v ∧ |v - x| ≤ 1 / 20 * 1000 ^ k ∧
      ∀ y, x ≤ y → ∃ w, readSize (MonitorBaseView.configure y) = some w ∧ v ≤ w := by
  obtain ⟨k, hRank, hCapacity, hUnit, hRead⟩ := readSize_configure hx
  refine ⟨k, _, hRank, hCapacity, hRead, ?_, ?_⟩
  · have hError := shownIn_error (b := 1000) (k := k) (by omega) hx
    exact_mod_cast hError
  · intro y hxy
    obtain ⟨j, -, -, hUnit', hRead'⟩ := readSize_configure (hx.trans hxy)
    exact ⟨_, hRead', shownIn_mono (by omega) hUnit hUnit' hxy⟩

/-- Just below the switch to the next unit the text still names the smaller one. -/
theorem size_faithful_below_switch :
    ∃ k v, rank (storageCapacity 999.97).2 = some k ∧
      (storageCapacity 999.97).1 * 1000 ^ k = 999.97 ∧
      readSize (MonitorBaseView.configure 999.97) = some v ∧ |v - 999.97| ≤ 1 / 20 * 1000 ^ k ∧
      ∀ y, 999.97 ≤ y → ∃ w, readSize (MonitorBaseView.configure y) = some w ∧ v ≤ w :=
  size_faithful 999.97 (by norm_num)

end LeigodAPM
