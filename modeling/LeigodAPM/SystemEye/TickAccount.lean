import LeigodAPM.SystemEye.CPU

/-!
# Every CPU tick is reported once

In exact arithmetic the reports of `systemUsage` telescope, because each call subtracts the
snapshot that the call before it stored.

* `usages_conserved`: weighted by the ticks of their intervals, the reports of a run add up
  to the ticks between the snapshot before its first call and its last one.
-/

namespace LeigodAPM

open Foundation Machine

namespace CPU

variable {build : Build} {prev load : HostCpuLoadInfo} {loads : List HostCpuLoadInfo}

/-- A usage of finite percentages. -/
def percentages (p : CpuState → ℚ) : CpuUsage :=
  ⟨.fin (p .system), .fin (p .user), .fin (p .idle), .fin (p .nice)⟩

/-- The total ticks of the intervals between successive snapshots. -/
def intervals (prev : HostCpuLoadInfo) (loads : List HostCpuLoadInfo) : List ℕ :=
  List.zipWith (fun a b => b.total - a.total) (prev :: loads) loads

/-- The reports, each weighted by the ticks of its interval. -/
def weighted (prev : HostCpuLoadInfo) (loads : List HostCpuLoadInfo) (reports : List (CpuState → ℚ))
    (c : CpuState) : ℚ :=
  (List.zipWith (fun (t : ℕ) (p : CpuState → ℚ) => (t : ℚ) * p c)
    (intervals prev loads) reports).sum

/-- The reports of a run whose calls read `loads` account for every tick since `prev`. -/
structure Conserved (build : Build) (prev : HostCpuLoadInfo) (loads : List HostCpuLoadInfo)
    (reports : List (CpuState → ℚ)) : Prop where
  length_eq : reports.length = loads.length
  nonneg : ∀ p ∈ reports, ∀ c, 0 ≤ p c
  sum_eq : ∀ p ∈ reports, p .system + p .user + p .idle + p .nice = 100
  weighted_eq : ∀ c, weighted prev loads reports c =
    100 * (((loads.getLastD prev).ticks c).toNat - (prev.ticks c).toNat)
  mean_eq : loads ≠ [] → ∃ p : CpuState → ℚ,
    systemUsage .exact build prev (.success (loads.getLastD prev)) =
      .ok (percentages p, loads.getLastD prev) ∧
    ∀ c, weighted prev loads reports c / (intervals prev loads).sum = p c

/-- The exact percentages of one interval. -/
def percent (prev load : HostCpuLoadInfo) (c : CpuState) : ℚ :=
  elapsed prev load c / interval prev load * 100

theorem interval_eq (hLe : prev ≤ load) : interval prev load = load.total - prev.total := by
  have hc : ∀ c, (prev.ticks c).toNat ≤ (load.ticks c).toNat :=
    fun c => UInt32.le_iff_toNat_le.mp (hLe c)
  have h1 := hc .user
  have h2 := hc .system
  have h3 := hc .idle
  have h4 := hc .nice
  unfold interval elapsed HostCpuLoadInfo.total
  omega

theorem shares_exact (hPos : interval prev load ≠ 0) :
    shares .exact prev load = percentages (percent prev load) := by
  have hNe : (interval prev load : ℚ) ≠ 0 := by exact_mod_cast hPos
  simp [shares, share, percentages, percent, FloatFormat.div_fin hNe]

theorem percent_sum (hPos : interval prev load ≠ 0) :
    percent prev load .system + percent prev load .user + percent prev load .idle +
      percent prev load .nice = 100 := by
  have hNe : (interval prev load : ℚ) ≠ 0 := by exact_mod_cast hPos
  have hSum : (elapsed prev load .system : ℚ) + elapsed prev load .user +
      elapsed prev load .idle + elapsed prev load .nice = interval prev load := by
    unfold interval
    push_cast
    ring
  unfold percent
  rw [← add_mul, ← add_mul, ← add_mul, ← add_div, ← add_div, ← add_div, hSum, div_self hNe, one_mul]

/-- One interval: its ticks times a percentage are the ticks of that counter. -/
theorem interval_mul_percent (hLe : prev ≤ load) (hPos : interval prev load ≠ 0) (c : CpuState) :
    (interval prev load : ℚ) * percent prev load c =
      100 * ((load.ticks c).toNat - (prev.ticks c).toNat) := by
  have hNe : (interval prev load : ℚ) ≠ 0 := by exact_mod_cast hPos
  have hc : (prev.ticks c).toNat ≤ (load.ticks c).toNat := UInt32.le_iff_toNat_le.mp (hLe c)
  have hElapsed : (elapsed prev load c : ℚ) = (load.ticks c).toNat - (prev.ticks c).toNat := by
    rw [elapsed, Nat.cast_sub hc]
  rw [percent, ← hElapsed]
  field_simp

/-- No counter has decreased and the total has increased. -/
def Grows (prev load : HostCpuLoadInfo) : Prop := prev ≤ load ∧ prev.total < load.total

theorem Grows.interval_ne_zero (hGrows : Grows prev load) : interval prev load ≠ 0 := by
  have hLt := hGrows.2
  rw [interval_eq hGrows.1]
  omega

/-- The reports of a run over growing snapshots. -/
def reports (prev : HostCpuLoadInfo) (loads : List HostCpuLoadInfo) : List (CpuState → ℚ) :=
  List.zipWith percent (prev :: loads) loads

theorem Grows.trans {a b c : HostCpuLoadInfo} (hab : Grows a b) (hbc : Grows b c) : Grows a c :=
  ⟨fun i => UInt32.le_trans (hab.1 i) (hbc.1 i), lt_trans hab.2 hbc.2⟩

theorem grows_getLastD (hNe : loads ≠ [])
    (hChain : (prev :: loads).IsChain Grows) : Grows prev (loads.getLastD prev) := by
  induction loads generalizing prev with
  | nil => exact absurd rfl hNe
  | cons load rest ih =>
    obtain ⟨hGrows, hRest⟩ := List.isChain_cons_cons.mp hChain
    rw [List.getLastD_cons]
    cases rest with
    | nil => exact hGrows
    | cons load' rest => exact hGrows.trans (ih (by simp) hRest)

theorem intervals_sum (hChain : (prev :: loads).IsChain Grows) :
    (intervals prev loads).sum + prev.total = (loads.getLastD prev).total := by
  induction loads generalizing prev with
  | nil => simp [intervals]
  | cons load rest ih =>
    obtain ⟨hGrows, hRest⟩ := List.isChain_cons_cons.mp hChain
    have hTail := ih hRest
    have hLt := hGrows.2
    have hHead : (intervals prev (load :: rest)).sum =
        (load.total - prev.total) + (intervals load rest).sum := by simp [intervals]
    rw [hHead, List.getLastD_cons]
    omega

/-- The weighted reports telescope. -/
theorem weighted_reports (hChain : (prev :: loads).IsChain Grows)
    (c : CpuState) : weighted prev loads (reports prev loads) c =
      100 * (((loads.getLastD prev).ticks c).toNat - (prev.ticks c).toNat) := by
  induction loads generalizing prev with
  | nil => simp [weighted, intervals]
  | cons load rest ih =>
    obtain ⟨hGrows, hRest⟩ := List.isChain_cons_cons.mp hChain
    have hHead : weighted prev (load :: rest) (reports prev (load :: rest)) c =
        ((load.total - prev.total : ℕ) : ℚ) * percent prev load c +
          weighted load rest (reports load rest) c := by
      simp [weighted, intervals, reports]
    rw [hHead, ih hRest, List.getLastD_cons, ← interval_eq hGrows.1,
      interval_mul_percent hGrows.1 hGrows.interval_ne_zero]
    ring

theorem mem_reports (hChain : (prev :: loads).IsChain Grows)
    {p : CpuState → ℚ} (hp : p ∈ reports prev loads) :
    ∃ a b, Grows a b ∧ p = percent a b := by
  induction loads generalizing prev with
  | nil => simp [reports] at hp
  | cons load rest ih =>
    obtain ⟨hGrows, hRest⟩ := List.isChain_cons_cons.mp hChain
    have hCons : p = percent prev load ∨ p ∈ reports load rest := by simpa [reports] using hp
    rcases hCons with rfl | hp
    · exact ⟨prev, load, hGrows, rfl⟩
    · exact ih hRest hp

theorem run_grows (hChain : (prev :: loads).IsChain Grows)
    {replies : List HostStatistics}
    (hLoads : replies.map (hostCPULoadInfo build) = loads.map Except.ok) (usages : List CpuUsage) :
    (step .exact build).run ⟨prev, usages⟩ replies =
      some ⟨loads.getLastD prev, usages ++ (reports prev loads).map percentages⟩ := by
  induction loads generalizing prev replies usages with
  | nil =>
    obtain rfl : replies = [] := List.map_eq_nil_iff.mp hLoads
    simp [reports]
  | cons load rest ih =>
    obtain ⟨hGrows, hRest⟩ := List.isChain_cons_cons.mp hChain
    obtain ⟨reply, replies, rfl, hLoad, hTail⟩ := List.map_eq_cons_iff.mp hLoads
    have hStep := step_of_le (s := ⟨prev, usages⟩) FloatFormat.exact_holdsNats hLoad hGrows.1
    rw [run_cons, hStep, shares_exact hGrows.interval_ne_zero]
    have hRun := ih hRest hTail (usages ++ [percentages (percent prev load)])
    rw [Option.bind_some, hRun, List.getLastD_cons]
    simp [reports]

/-- **Conservation.** For growing snapshots every call returns, and the reports account for
every tick between the snapshot before the first call and the last one. -/
theorem usages_conserved (build : Build) (prev : HostCpuLoadInfo) (replies : List HostStatistics)
    (loads : List HostCpuLoadInfo)
    (hLoads : replies.map (hostCPULoadInfo build) = loads.map Except.ok)
    (hChain : (prev :: loads).IsChain Grows) :
    ∃ reports, (step .exact build).run ⟨prev, []⟩ replies =
        some ⟨loads.getLastD prev, reports.map percentages⟩ ∧
      Conserved build prev loads reports := by
  refine ⟨reports prev loads, run_grows hChain hLoads [], ?_⟩
  constructor
  · simp [reports]
  · intro p hp c
    obtain ⟨a, b, -, rfl⟩ := mem_reports hChain hp
    unfold percent
    positivity
  · intro p hp
    obtain ⟨a, b, hGrows, rfl⟩ := mem_reports hChain hp
    exact percent_sum hGrows.interval_ne_zero
  · exact weighted_reports hChain
  · intro hNe
    have hGrows := grows_getLastD hNe hChain
    have hLast : hostCPULoadInfo build (.success (loads.getLastD prev)) =
        .ok (loads.getLastD prev) := if_neg fun h => h.2 rfl
    refine ⟨percent prev (loads.getLastD prev), ?_, fun c => ?_⟩
    · rw [systemUsage_of_le FloatFormat.exact_holdsNats hLast hGrows.1,
        shares_exact hGrows.interval_ne_zero]
    · have hSum : (intervals prev loads).sum = interval prev (loads.getLastD prev) := by
        have hTelescope := intervals_sum hChain
        rw [interval_eq hGrows.1]
        omega
      have hNeZero : (interval prev (loads.getLastD prev) : ℚ) ≠ 0 := by
        exact_mod_cast hGrows.interval_ne_zero
      rw [weighted_reports hChain, hSum, div_eq_iff hNeZero, mul_comm (percent _ _ c),
        interval_mul_percent hGrows.1 hGrows.interval_ne_zero]

theorem usages_conserved_of_two :
    ∃ reports, (step .exact ⟨false, "CPU.swift"⟩).run ⟨.zero, []⟩
        [.success ⟨(1, 1, 2, 0)⟩, .success ⟨(4, 1, 3, 0)⟩] =
        some ⟨⟨(4, 1, 3, 0)⟩, reports.map percentages⟩ ∧
      Conserved ⟨false, "CPU.swift"⟩ .zero [⟨(1, 1, 2, 0)⟩, ⟨(4, 1, 3, 0)⟩] reports := by
  have h1 : Grows .zero ⟨(1, 1, 2, 0)⟩ := by
    refine ⟨fun c => ?_, by decide⟩
    cases c <;> decide
  have h2 : Grows ⟨(1, 1, 2, 0)⟩ ⟨(4, 1, 3, 0)⟩ := by
    refine ⟨fun c => ?_, by decide⟩
    cases c <;> decide
  exact usages_conserved _ _ _ [⟨(1, 1, 2, 0)⟩, ⟨(4, 1, 3, 0)⟩] rfl (by simp [h1, h2])

end CPU

end LeigodAPM
