import LeigodAPM.Foundation.Percent
import LeigodAPM.Monitor.MonitorContainerView
import LeigodAPM.SystemEye.Memory

/-!
# The percentages on the system tiles

The tile of the system CPU adds three shares, each rounded, and that of the system RAM divides
the bytes in use by all bytes. Both show one decimal.

* `sysCPU_text`: the CPU tile shows the busy ticks of the interval, between 0 and 100 percent
  and off by half a tenth and a rounding error, or "nan%" when no tick has passed.
* `sysRAM_text`: the RAM tile shows the used part of the memory in the same way.
-/

namespace LeigodAPM

open Foundation

/-- The text shows a percentage near `exact`. -/
def ShowsPercent (text : String) (exact δ : ℚ) : Prop :=
  ∃ v, readDecimal text.toList = some (v, ['%']) ∧ 0 ≤ v ∧ v ≤ 100 ∧ |v - exact| ≤ 1 / 20 + δ

theorem showsPercent_configurePercent (view : MonitorBaseView) {p exact δ : ℚ} (hp : 0 ≤ p)
    (hExact : exact ≤ 100) (hδ : δ ≤ 1 / 100) (hNear : |p - exact| ≤ δ) :
    ShowsPercent (view.configurePercent (.fin p)).contentLabel exact δ := by
  have hText : (view.configurePercent (.fin p)).contentLabel.toList = oneDecimal p ++ ['%'] := by
    simp [MonitorBaseView.configurePercent, MonitorBaseView.contentString, formatDouble]
  rw [ShowsPercent, hText]
  exact shown_percent hp hExact hδ hNear ['%']

/-! ## The CPU -/

namespace CPU

variable {build : Build} {prev load : HostCpuLoadInfo} {reply : HostStatistics} {usage : CpuUsage}

/-- The ticks of the interval that are not idle. -/
def busy (prev load : HostCpuLoadInfo) : ℕ :=
  elapsed prev load .system + elapsed prev load .user + elapsed prev load .nice

/-- A call that returns has the shares of its interval. -/
theorem systemUsage_eq_ok (hUsage : systemUsage binary64 build prev reply = .ok (usage, load)) :
    prev ≤ load ∧ usage = shares binary64 prev load := by
  cases hLoad : hostCPULoadInfo build reply with
  | error e =>
    rw [systemUsage_of_error hLoad] at hUsage
    cases hUsage
  | ok read =>
    by_cases hLe : prev ≤ read
    · rw [systemUsage_of_le binary64_holdsNats hLoad hLe] at hUsage
      obtain ⟨hShares, rfl⟩ := Prod.mk.inj (Except.ok.inj hUsage)
      exact ⟨hLe, hShares.symm⟩
    · rw [systemUsage_of_not_le binary64_holdsNats hLoad hLe] at hUsage
      cases hUsage

/-- Without a tick the division is of zero by zero. -/
theorem share_of_no_tick (hZero : interval prev load = 0) (c : CpuState) :
    share binary64 prev load c = .nan := by
  have hElapsed : elapsed prev load c = 0 := by
    have hLe := elapsed_le_interval prev load c
    omega
  rw [share, hElapsed, hZero]
  rfl

theorem share_error (hPos : interval prev load ≠ 0) (c : CpuState) :
    ∃ x, share binary64 prev load c = .fin x ∧ 0 ≤ x ∧ x ≤ 100 ∧
      |x - 100 * ((elapsed prev load c : ℚ) / interval prev load)| ≤ 2 ^ (-45 : ℤ) :=
  percent_of_parts (elapsed_le_interval prev load c) (Nat.pos_of_ne_zero hPos)

/-- The sum of three shares, with two more roundings. -/
theorem busy_error (hPos : interval prev load ≠ 0) :
    ∃ x, binary64.add (binary64.add (share binary64 prev load .system)
        (share binary64 prev load .user)) (share binary64 prev load .nice) = .fin x ∧ 0 ≤ x ∧
      |x - 100 * ((busy prev load : ℚ) / interval prev load)| ≤ 2 ^ (-42 : ℤ) := by
  obtain ⟨x, hx, hx0, hx100, hxError⟩ := share_error hPos .system
  obtain ⟨y, hy, hy0, hy100, hyError⟩ := share_error hPos .user
  obtain ⟨z, hz, hz0, hz100, hzError⟩ := share_error hPos .nice
  obtain ⟨s, hs, hs0, hsError⟩ := add_error (j := 8) (by norm_num) hx0 hy0
    (by norm_num; linarith)
  have hsHigh : s ≤ 201 := by
    norm_num [abs_le] at hsError
    linarith [hsError.2]
  obtain ⟨t, ht, ht0, htError⟩ := add_error (j := 9) (by norm_num) hs0 hz0
    (by norm_num; linarith)
  have hBusy : 100 * ((busy prev load : ℚ) / interval prev load) =
      100 * ((elapsed prev load .system : ℚ) / interval prev load) +
        100 * ((elapsed prev load .user : ℚ) / interval prev load) +
        100 * ((elapsed prev load .nice : ℚ) / interval prev load) := by
    rw [busy]
    push_cast
    ring
  refine ⟨t, ?_, ht0, ?_⟩
  · rw [hx, hy, hz, hs, ht]
  · rw [hBusy]
    norm_num [abs_le] at hxError hyError hzError hsError htError ⊢
    exact ⟨by linarith [hxError.1, hyError.1, hzError.1, hsError.1, htError.1],
      by linarith [hxError.2, hyError.2, hzError.2, hsError.2, htError.2]⟩

end CPU

/-- **The CPU tile.** After a call of `systemUsage` that returns, the tile shows the busy part of
the interval, or that it is not a number when no tick has passed. -/
theorem sysCPU_text (build : Build) (prev load : HostCpuLoadInfo) (reply : HostStatistics)
    (r : Readings)
    (hUsage : CPU.systemUsage binary64 build prev reply = .ok (r.systemUsage, load))
    (view : MonitorBaseView) :
    (prev = load → (view.configurePercent (r.cpuPercent binary64)).contentLabel = "nan%") ∧
      (prev ≠ load → ShowsPercent (view.configurePercent (r.cpuPercent binary64)).contentLabel
        (100 * ((CPU.busy prev load : ℚ) / CPU.interval prev load)) (2 ^ (-42 : ℤ))) := by
  obtain ⟨hLe, hShares⟩ := CPU.systemUsage_eq_ok hUsage
  constructor
  · intro hEq
    have hZero := (CPU.interval_eq_zero hLe).mpr hEq
    have hNan : r.cpuPercent binary64 = .nan := by
      rw [Readings.cpuPercent, hShares, CPU.shares, CPU.share_of_no_tick hZero,
        CPU.share_of_no_tick hZero, CPU.share_of_no_tick hZero]
      rfl
    rw [hNan]
    rfl
  · intro hNe
    have hPos : CPU.interval prev load ≠ 0 := fun h => hNe ((CPU.interval_eq_zero hLe).mp h)
    obtain ⟨x, hx, hx0, hError⟩ := CPU.busy_error hPos
    have hSum : r.cpuPercent binary64 = .fin x := by
      rw [Readings.cpuPercent, hShares]
      exact hx
    rw [hSum]
    refine showsPercent_configurePercent view hx0 ?_ (by norm_num) hError
    have hIntervalQ : (0 : ℚ) < CPU.interval prev load := by
      exact_mod_cast Nat.pos_of_ne_zero hPos
    have hBusyLe : (CPU.busy prev load : ℚ) ≤ CPU.interval prev load := by
      exact_mod_cast Nat.le_add_right _ _
    have hPart := (div_le_one hIntervalQ).mpr hBusyLe
    linarith

/-- A first call, with 200 of 1000 ticks busy. -/
def firstReadings : Readings :=
  ⟨.fin 0, CPU.shares binary64 .zero ⟨(100, 50, 800, 50)⟩, 0, .fin 0, .fin 0, .fin 0, .fin 0⟩

theorem sysCPU_text_first :
    (HostCpuLoadInfo.zero = ⟨(100, 50, 800, 50)⟩ → ((MonitorBaseView.new .sysCPU).configurePercent
        (firstReadings.cpuPercent binary64)).contentLabel = "nan%") ∧
      (HostCpuLoadInfo.zero ≠ ⟨(100, 50, 800, 50)⟩ →
        ShowsPercent ((MonitorBaseView.new .sysCPU).configurePercent
          (firstReadings.cpuPercent binary64)).contentLabel
          (100 * ((CPU.busy .zero ⟨(100, 50, 800, 50)⟩ : ℚ) /
            CPU.interval .zero ⟨(100, 50, 800, 50)⟩)) (2 ^ (-42 : ℤ))) := by
  refine sysCPU_text ⟨false, ""⟩ .zero ⟨(100, 50, 800, 50)⟩ (.success ⟨(100, 50, 800, 50)⟩)
    firstReadings (CPU.systemUsage_of_le binary64_holdsNats rfl fun c => ?_) _
  cases c with
  | _ => decide

/-! ## The memory -/

/-- Readings with what `Memory.systemUsage` returns. -/
def Readings.withMemory (r : Readings) (usage : MemoryUsage) : Readings :=
  { r with
    active := usage.active
    inactive := usage.inactive
    wired := usage.wired
    total := usage.total }

namespace Memory

/-- The bytes that the tile counts as used. -/
def usedBytes (device : MemoryDevice) (statistics : VmStatistics64) : ℕ :=
  (statistics.active_count.toNat + statistics.inactive_count.toNat +
    statistics.wire_count.toNat) * device.vm_kernel_page_size.toNat

/-- The sum that the tile divides is exact. -/
theorem usedBytes_exact {device : MemoryDevice}
    (hPage : device.vm_kernel_page_size.toNat ≤ 2 ^ 19) (statistics : VmStatistics64) :
    binary64.add (binary64.add (bytes binary64 device statistics.active_count)
        (bytes binary64 device statistics.inactive_count))
      (bytes binary64 device statistics.wire_count) = .fin (usedBytes device statistics : ℚ) := by
  have hProduct (count : UInt32) :
      count.toNat * device.vm_kernel_page_size.toNat ≤ 2 ^ 32 * 2 ^ 19 :=
    Nat.mul_le_mul count.toNat_lt.le hPage
  have hActive := hProduct statistics.active_count
  have hInactive := hProduct statistics.inactive_count
  have hWired := hProduct statistics.wire_count
  rw [bytes_exact hPage, bytes_exact hPage, bytes_exact hPage, FloatFormat.add_fin,
    ← Nat.cast_add, FloatFormat.ofRat_of_holds (binary64_holdsNats _ (by omega)),
    FloatFormat.add_fin, ← Nat.cast_add,
    FloatFormat.ofRat_of_holds (binary64_holdsNats _ (by omega)), usedBytes, Nat.add_mul,
    Nat.add_mul]

end Memory

/-- **The RAM tile.** The tile shows the used part of the memory, for every reply of the kernel
whose pages are parts of that memory. -/
theorem sysRAM_text (device : MemoryDevice) (reply : HostStatistics64)
    (hPage : device.vm_kernel_page_size.toNat ≤ 2 ^ 19)
    (hPositive : 0 < device.physicalMemory.toNat) (hTotal : device.physicalMemory.toNat ≤ 2 ^ 53)
    (hParts : Memory.usedBytes device reply.hostInfo ≤ device.physicalMemory.toNat)
    (r : Readings) (view : MonitorBaseView) :
    ShowsPercent (view.configurePercent
        ((r.withMemory
          (Memory.systemUsage binary64 device reply)).ramPercent binary64)).contentLabel
      (100 * ((Memory.usedBytes device reply.hostInfo : ℚ) / device.physicalMemory.toNat))
      (2 ^ (-45 : ℤ)) := by
  obtain ⟨x, hx, hx0, -, hError⟩ := percent_of_parts hParts hPositive
  have hPercent : (r.withMemory (Memory.systemUsage binary64 device reply)).ramPercent binary64 =
      .fin x := by
    rw [← hx, ← Memory.usedBytes_exact hPage, ← Memory.totalBytes_exact hTotal]
    rfl
  rw [hPercent]
  refine showsPercent_configurePercent view hx0 ?_ (by norm_num) hError
  have hPositiveQ : (0 : ℚ) < device.physicalMemory.toNat := by exact_mod_cast hPositive
  have hPartsQ : (Memory.usedBytes device reply.hostInfo : ℚ) ≤ device.physicalMemory.toNat := by
    exact_mod_cast hParts
  have hPart := (div_le_one hPositiveQ).mpr hPartsQ
  linarith

/-- A device of 4 GB with pages of 16 KB. -/
theorem sysRAM_text_device :
    ShowsPercent ((MonitorBaseView.new .sysRAM).configurePercent
        ((firstReadings.withMemory (Memory.systemUsage binary64 ⟨16384, 4294967296⟩
          ⟨0, ⟨20000, 90000, 80000, 50000, 22144⟩, fun h => absurd rfl h⟩)).ramPercent
            binary64)).contentLabel
      (100 * ((Memory.usedBytes ⟨16384, 4294967296⟩ ⟨20000, 90000, 80000, 50000, 22144⟩ : ℚ) /
        (4294967296 : UInt64).toNat)) (2 ^ (-45 : ℤ)) :=
  sysRAM_text ⟨16384, 4294967296⟩ ⟨0, ⟨20000, 90000, 80000, 50000, 22144⟩, fun h => absurd rfl h⟩
    (by decide) (by decide) (by decide) (by decide) firstReadings (.new .sysRAM)

end LeigodAPM
