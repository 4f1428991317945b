import LeigodAPM.Foundation.Binary64
import LeigodAPM.Foundation.Bounds
import LeigodAPM.Foundation.Run

/-!
# System CPU usage

`systemUsage` reads the four tick counters of the host, subtracts the snapshot of the
previous call and divides by the ticks that passed. The arithmetic of `Double` is a
parameter: `binary64` in the program, `exact` where ticks are accounted for.

* `systemUsage_of_le`: what a call returns when no counter has decreased.
* `eachCall_defined_iff`: no call of a run traps or divides by zero, and all percentages
  are between 0 and 100, exactly when no counter ever decreases and no two successive
  snapshots are equal.
-/

namespace LeigodAPM

open Foundation Machine

/-- The indices of `cpu_ticks`. -/
inductive CpuState
  | user
  | system
  | idle
  | nice
  deriving DecidableEq

/-- A snapshot of the host's tick counters. -/
structure HostCpuLoadInfo where
  cpu_ticks : UInt32 × UInt32 × UInt32 × UInt32
  deriving DecidableEq

namespace HostCpuLoadInfo

def ticks (load : HostCpuLoadInfo) : CpuState → UInt32
  | .user => load.cpu_ticks.1
  | .system => load.cpu_ticks.2.1
  | .idle => load.cpu_ticks.2.2.1
  | .nice => load.cpu_ticks.2.2.2

/-- `host_cpu_load_info()`. -/
def zero : HostCpuLoadInfo := ⟨(0, 0, 0, 0)⟩

def total (load : HostCpuLoadInfo) : ℕ :=
  (load.ticks .system).toNat + (load.ticks .user).toNat + (load.ticks .nice).toNat +
    (load.ticks .idle).toNat

/-- Componentwise order. -/
instance : LE HostCpuLoadInfo := ⟨fun prev load => ∀ c, prev.ticks c ≤ load.ticks c⟩

end HostCpuLoadInfo

def KERN_SUCCESS : Int32 := 0

/-- What `host_statistics` returns and leaves in a buffer that was all zeros. -/
structure HostStatistics where
  result : Int32
  hostInfo : HostCpuLoadInfo
  unwritten : result ≠ KERN_SUCCESS → hostInfo = .zero

def HostStatistics.success (load : HostCpuLoadInfo) : HostStatistics :=
  ⟨KERN_SUCCESS, load, fun h => absurd rfl h⟩

def HostStatistics.failure (result : Int32) : HostStatistics := ⟨result, .zero, fun _ => rfl⟩

/-- Why the program stops in a call. -/
inductive Stop
  | fatalError (message : String)
  | arithmeticOverflow
  deriving DecidableEq

/-- How the program was compiled. -/
structure Build where
  DEBUG : Bool
  file : String

/-- The named tuple that `systemUsage` returns. -/
structure CpuUsage where
  system : Double
  user : Double
  idle : Double
  nice : Double

namespace CPU

def hostCPULoadInfo (build : Build) (reply : HostStatistics) : Except Stop HostCpuLoadInfo :=
  if build.DEBUG = true ∧ reply.result ≠ KERN_SUCCESS then
    .error (.fatalError ("ERROR - " ++ build.file ++ ":hostCPULoadInfo - kern_result_t = "
      ++ toString reply.result))
  else .ok reply.hostInfo

/-- The ticks since the previous snapshot, as `Double`. -/
structure TickDiffs where
  userDiff : Double
  sysDiff : Double
  idleDiff : Double
  niceDiff : Double

/-- `Double(a - b)`. -/
def doubleSub (F : FloatFormat) (a b : UInt32) : Except Stop Double :=
  match checkedSub a b with
  | some d => .ok (F.ofRat d.toNat)
  | none => .error .arithmeticOverflow

def tickDiffs (F : FloatFormat) (load loadPrevious : HostCpuLoadInfo) : Except Stop TickDiffs := do
  let userDiff ← doubleSub F load.cpu_ticks.1 loadPrevious.cpu_ticks.1
  let sysDiff ← doubleSub F load.cpu_ticks.2.1 loadPrevious.cpu_ticks.2.1
  let idleDiff ← doubleSub F load.cpu_ticks.2.2.1 loadPrevious.cpu_ticks.2.2.1
  let niceDiff ← doubleSub F load.cpu_ticks.2.2.2 loadPrevious.cpu_ticks.2.2.2
  pure ⟨userDiff, sysDiff, idleDiff, niceDiff⟩

def TickDiffs.totalTicks (F : FloatFormat) (d : TickDiffs) : Double :=
  F.add (F.add (F.add d.sysDiff d.userDiff) d.niceDiff) d.idleDiff

/-- A call, with the new value of `loadPrevious`. -/
def systemUsage (F : FloatFormat) (build : Build) (loadPrevious : HostCpuLoadInfo)
    (reply : HostStatistics) : Except Stop (CpuUsage × HostCpuLoadInfo) := do
  let load ← hostCPULoadInfo build reply
  let d ← tickDiffs F load loadPrevious
  let totalTicks := d.totalTicks F
  let sys := F.mul (F.div d.sysDiff totalTicks) (.fin 100)
  let user := F.mul (F.div d.userDiff totalTicks) (.fin 100)
  let idle := F.mul (F.div d.idleDiff totalTicks) (.fin 100)
  let nice := F.mul (F.div d.niceDiff totalTicks) (.fin 100)
  pure (⟨sys, user, idle, nice⟩, load)

/-! ## Runs -/

/-- The static snapshot, and the results that its callers have got so far. -/
structure Calls where
  loadPrevious : HostCpuLoadInfo
  usages : List CpuUsage

def start : Calls := ⟨.zero, []⟩

/-- One call, by any caller; `none` when the program stops. -/
def step (F : FloatFormat) (build : Build) : Machine Calls HostStatistics := fun s reply =>
  match systemUsage F build s.loadPrevious reply with
  | .ok (usage, load) => some ⟨load, s.usages ++ [usage]⟩
  | .error _ => none

/-- The snapshots that the calls of a run read, up to a failed query in a debug build. -/
def loads (build : Build) : List HostStatistics → List HostCpuLoadInfo
  | [] => []
  | reply :: replies =>
    match hostCPULoadInfo build reply with
    | .ok load => load :: loads build replies
    | .error _ => []

/-- No subtraction of the call underflows and no division is by zero, and what it returns
are percentages. -/
structure CallDefined (build : Build) (s : Calls) (reply : HostStatistics) : Prop where
  no_underflow : systemUsage binary64 build s.loadPrevious reply ≠ .error .arithmeticOverflow
  no_zero_division : ∀ load d, hostCPULoadInfo build reply = .ok load →
    tickDiffs binary64 load s.loadPrevious = .ok d → d.totalTicks binary64 ≠ .fin 0
  percentages : ∀ usage load, systemUsage binary64 build s.loadPrevious reply = .ok (usage, load) →
    ∀ p ∈ [usage.system, usage.user, usage.idle, usage.nice],
      ∃ x : ℚ, p = .fin x ∧ 0 ≤ x ∧ x ≤ 100

/-! ## Ticks between two snapshots -/

section Interval

variable {F : FloatFormat} {build : Build} {prev load : HostCpuLoadInfo} {reply : HostStatistics}

def elapsed (prev load : HostCpuLoadInfo) (c : CpuState) : ℕ :=
  (load.ticks c).toNat - (prev.ticks c).toNat

/-- The total ticks of the interval of a call. -/
def interval (prev load : HostCpuLoadInfo) : ℕ :=
  elapsed prev load .system + elapsed prev load .user + elapsed prev load .nice +
    elapsed prev load .idle

theorem elapsed_lt (prev load : HostCpuLoadInfo) (c : CpuState) : elapsed prev load c < 2 ^ 32 := by
  have h := (load.ticks c).toNat_lt
  unfold elapsed
  omega

theorem interval_eq_zero (hLe : prev ≤ load) : interval prev load = 0 ↔ prev = load := by
  constructor
  · intro hZero
    have hEq : ∀ c, prev.ticks c = load.ticks c := by
      intro c
      have hc : (prev.ticks c).toNat ≤ (load.ticks c).toNat := UInt32.le_iff_toNat_le.mp (hLe c)
      apply UInt32.toNat_inj.mp
      unfold interval elapsed at hZero
      cases c <;> omega
    have h1 := hEq .user
    have h2 := hEq .system
    have h3 := hEq .idle
    have h4 := hEq .nice
    obtain ⟨u, s, i, n⟩ := prev
    obtain ⟨u', s', i', n'⟩ := load
    simp only [HostCpuLoadInfo.ticks] at h1 h2 h3 h4
    rw [h1, h2, h3, h4]
  · rintro rfl
    simp [interval, elapsed]

theorem doubleSub_of_le (hF : F.HoldsNats) {a b : UInt32} (h : b ≤ a) :
    doubleSub F a b = .ok (.fin ((a.toNat - b.toNat : ℕ) : ℚ)) := by
  have hLt := a.toNat_lt
  rw [doubleSub, checkedSub_of_le h]
  simp only [toNat_sub_of_le h]
  rw [FloatFormat.ofRat_of_holds (hF _ (by omega))]

theorem doubleSub_of_not_le {a b : UInt32} (h : ¬ b ≤ a) :
    doubleSub F a b = .error .arithmeticOverflow := by
  rw [doubleSub, checkedSub_eq_none.mpr h]

/-- The differences when no counter has decreased. -/
theorem tickDiffs_of_le (hF : F.HoldsNats) (hLe : prev ≤ load) :
    tickDiffs F load prev = .ok ⟨.fin (elapsed prev load .user), .fin (elapsed prev load .system),
      .fin (elapsed prev load .idle), .fin (elapsed prev load .nice)⟩ := by
  have h1 := doubleSub_of_le hF (hLe .user)
  have h2 := doubleSub_of_le hF (hLe .system)
  have h3 := doubleSub_of_le hF (hLe .idle)
  have h4 := doubleSub_of_le hF (hLe .nice)
  simp only [HostCpuLoadInfo.ticks] at h1 h2 h3 h4
  simp only [tickDiffs, h1, h2, h3, h4]
  rfl

/-- A counter that has decreased stops the program. -/
theorem tickDiffs_of_not_le (hF : F.HoldsNats) (hNot : ¬ prev ≤ load) :
    tickDiffs F load prev = .error .arithmeticOverflow := by
  have hStop : ∀ {a b : UInt32} (k : Double → Except Stop TickDiffs), ¬ b ≤ a →
      (doubleSub F a b >>= k) = .error .arithmeticOverflow := by
    intro a b k h
    rw [doubleSub_of_not_le h]
    rfl
  have hGo : ∀ {a b : UInt32} (k : Double → Except Stop TickDiffs), b ≤ a →
      (doubleSub F a b >>= k) = k (.fin ((a.toNat - b.toNat : ℕ) : ℚ)) := by
    intro a b k h
    rw [doubleSub_of_le hF h]
    rfl
  unfold tickDiffs
  by_cases h1 : prev.cpu_ticks.1 ≤ load.cpu_ticks.1
  · rw [hGo _ h1]
    by_cases h2 : prev.cpu_ticks.2.1 ≤ load.cpu_ticks.2.1
    · rw [hGo _ h2]
      by_cases h3 : prev.cpu_ticks.2.2.1 ≤ load.cpu_ticks.2.2.1
      · rw [hGo _ h3]
        by_cases h4 : prev.cpu_ticks.2.2.2 ≤ load.cpu_ticks.2.2.2
        · refine absurd (fun c => ?_) hNot
          cases c with
          | user => exact h1
          | system => exact h2
          | idle => exact h3
          | nice => exact h4
        · exact hStop _ h4
      · exact hStop _ h3
    · exact hStop _ h2
  · exact hStop _ h1

theorem totalTicks_eq (hF : F.HoldsNats) :
    TickDiffs.totalTicks F ⟨.fin (elapsed prev load .user), .fin (elapsed prev load .system),
      .fin (elapsed prev load .idle), .fin (elapsed prev load .nice)⟩ =
        .fin (interval prev load) := by
  have h1 := elapsed_lt prev load .user
  have h2 := elapsed_lt prev load .system
  have h3 := elapsed_lt prev load .idle
  have h4 := elapsed_lt prev load .nice
  have hAdd : ∀ m n : ℕ, m + n ≤ 2 ^ 53 → F.add (.fin m) (.fin n) = .fin ((m + n : ℕ) : ℚ) := by
    intro m n h
    rw [FloatFormat.add_fin, ← Nat.cast_add, FloatFormat.ofRat_of_holds (hF _ h)]
  simp only [TickDiffs.totalTicks]
  rw [hAdd _ _ (by omega), hAdd _ _ (by omega), hAdd _ _ (by omega)]
  rfl

/-- The percentage of one counter, as the program computes it. -/
def share (F : FloatFormat) (prev load : HostCpuLoadInfo) (c : CpuState) : Double :=
  F.mul (F.div (.fin (elapsed prev load c)) (.fin (interval prev load))) (.fin 100)

def shares (F : FloatFormat) (prev load : HostCpuLoadInfo) : CpuUsage :=
  ⟨share F prev load .system, share F prev load .user, share F prev load .idle,
    share F prev load .nice⟩

/-- A call in which no counter has decreased. -/
theorem systemUsage_of_le (hF : F.HoldsNats) (hLoad : hostCPULoadInfo build reply = .ok load)
    (hLe : prev ≤ load) : systemUsage F build prev reply = .ok (shares F prev load, load) := by
  simp only [systemUsage, hLoad, bind, Except.bind]
  simp only [tickDiffs_of_le hF hLe, totalTicks_eq hF]
  rfl

theorem systemUsage_of_not_le (hF : F.HoldsNats) (hLoad : hostCPULoadInfo build reply = .ok load)
    (hNot : ¬ prev ≤ load) : systemUsage F build prev reply = .error .arithmeticOverflow := by
  simp only [systemUsage, hLoad, bind, Except.bind]
  simp only [tickDiffs_of_not_le hF hNot]

theorem systemUsage_of_error {e : Stop} (hError : hostCPULoadInfo build reply = .error e) :
    systemUsage F build prev reply = .error e := by
  simp only [systemUsage, hError]
  rfl

theorem step_of_le {s : Calls} (hF : F.HoldsNats)
    (hLoad : hostCPULoadInfo build reply = .ok load) (hLe : s.loadPrevious ≤ load) :
    step F build s reply = some ⟨load, s.usages ++ [shares F s.loadPrevious load]⟩ := by
  simp only [step, systemUsage_of_le hF hLoad hLe]

theorem elapsed_le_interval (prev load : HostCpuLoadInfo) (c : CpuState) :
    elapsed prev load c ≤ interval prev load := by
  unfold interval
  cases c <;> omega

/-- A share is a percentage, whatever the rounding. -/
theorem share_mem (hF : F.HoldsNats) (hPos : interval prev load ≠ 0) (c : CpuState) :
    ∃ x : ℚ, share F prev load c = .fin x ∧ 0 ≤ x ∧ x ≤ 100 := by
  have h0 : F.Holds 0 := hF.zero
  have h1 : F.Holds 1 := hF.one
  have h100 : F.Holds 100 := by exact_mod_cast hF 100 (by norm_num)
  have hInterval : (0 : ℚ) < interval prev load := by exact_mod_cast Nat.pos_of_ne_zero hPos
  have hLe : (elapsed prev load c : ℚ) ≤ interval prev load := by
    exact_mod_cast elapsed_le_interval prev load c
  obtain ⟨q, ⟨hq0, hq1⟩, hq⟩ := FloatFormat.exists_ofRat h0 h1
    (div_nonneg (Nat.cast_nonneg _) hInterval.le) ((div_le_one hInterval).mpr hLe)
  obtain ⟨x, ⟨hx0, hx100⟩, hx⟩ := FloatFormat.exists_ofRat h0 h100
    (x := q * 100) (by linarith) (by linarith)
  refine ⟨x, ?_, hx0, hx100⟩
  rw [share, FloatFormat.div_fin hInterval.ne', hq, FloatFormat.mul_fin, hx]

end Interval

/-! ## Calls that are defined -/

section Defined

variable {build : Build} {s : Calls} {reply : HostStatistics} {load : HostCpuLoadInfo}

/-- No counter has decreased and some counter has increased. -/
def Advances (prev load : HostCpuLoadInfo) : Prop := prev ≤ load ∧ prev ≠ load

theorem callDefined_of_error {e : Stop} (he : e ≠ .arithmeticOverflow)
    (hError : hostCPULoadInfo build reply = .error e) : CallDefined build s reply := by
  have hUsage : systemUsage binary64 build s.loadPrevious reply = .error e :=
    systemUsage_of_error hError
  constructor
  · rw [hUsage]
    simpa using he
  · intro load d hLoad
    rw [hError] at hLoad
    cases hLoad
  · intro usage load hOk
    rw [hUsage] at hOk
    cases hOk

/-- The only other stop is the one of a debug build. -/
theorem hostCPULoadInfo_error {e : Stop} (hError : hostCPULoadInfo build reply = .error e) :
    e ≠ .arithmeticOverflow := by
  unfold hostCPULoadInfo at hError
  split at hError
  · obtain rfl := Except.error.inj hError
    simp
  · cases hError

theorem callDefined_iff (hLoad : hostCPULoadInfo build reply = .ok load) :
    CallDefined build s reply ↔ Advances s.loadPrevious load := by
  constructor
  · intro hDefined
    have hLe : s.loadPrevious ≤ load := by
      by_contra hNot
      exact hDefined.no_underflow (systemUsage_of_not_le binary64_holdsNats hLoad hNot)
    refine ⟨hLe, fun hEq => ?_⟩
    apply hDefined.no_zero_division load _ hLoad (tickDiffs_of_le binary64_holdsNats hLe)
    rw [totalTicks_eq binary64_holdsNats, (interval_eq_zero hLe).mpr hEq]
    rfl
  · rintro ⟨hLe, hNe⟩
    have hPos : interval s.loadPrevious load ≠ 0 := fun h => hNe ((interval_eq_zero hLe).mp h)
    have hUsage := systemUsage_of_le binary64_holdsNats hLoad hLe
    constructor
    · rw [hUsage]
      simp
    · intro load' d hLoad' hDiffs
      obtain rfl : load = load' := Except.ok.inj (hLoad.symm.trans hLoad')
      rw [tickDiffs_of_le binary64_holdsNats hLe] at hDiffs
      obtain rfl := Except.ok.inj hDiffs
      rw [totalTicks_eq binary64_holdsNats]
      simpa using hPos
    · intro usage load' hOk p hp
      rw [hUsage] at hOk
      obtain ⟨rfl, -⟩ := Prod.mk.inj (Except.ok.inj hOk)
      simp only [List.mem_cons, List.not_mem_nil, or_false] at hp
      rcases hp with rfl | rfl | rfl | rfl
      · exact share_mem binary64_holdsNats hPos .system
      · exact share_mem binary64_holdsNats hPos .user
      · exact share_mem binary64_holdsNats hPos .idle
      · exact share_mem binary64_holdsNats hPos .nice

/-- The run from any held snapshot. -/
theorem eachCall_defined_from (build : Build) (s : Calls) (replies : List HostStatistics) :
    (step binary64 build).EachAttempt (CallDefined build) s replies ↔
      (s.loadPrevious :: loads build replies).IsChain Advances := by
  induction replies generalizing s with
  | nil => simp [loads]
  | cons reply replies ih =>
    rw [eachAttempt_cons]
    cases hLoad : hostCPULoadInfo build reply with
    | error e =>
      have hDefined : CallDefined build s reply :=
        callDefined_of_error (hostCPULoadInfo_error hLoad) hLoad
      have hStep : step binary64 build s reply = none := by
        simp only [step, systemUsage_of_error hLoad]
      simp [loads, hLoad, hDefined, hStep]
    | ok load =>
      simp only [loads, hLoad, List.isChain_cons_cons]
      rw [callDefined_iff hLoad]
      apply and_congr_right
      intro hAdvances
      rw [step_of_le binary64_holdsNats hLoad hAdvances.1]
      simp only [Option.some.injEq, forall_eq']
      exact ih _

/-- **Defined calls.** In a run from the start of the program every call is defined exactly
when each snapshot, the all-zero one first, is exceeded by the next. -/
theorem eachCall_defined_iff (build : Build) (replies : List HostStatistics) :
    (step binary64 build).EachAttempt (CallDefined build) start replies ↔
      (.zero :: loads build replies).IsChain Advances :=
  eachCall_defined_from build start replies

/-- A query that fails in a release build after one that succeeded. -/
theorem failed_query_underflows :
    ¬ (step binary64 ⟨false, "CPU.swift"⟩).EachAttempt (CallDefined ⟨false, "CPU.swift"⟩) start
      [.success ⟨(100, 50, 800, 0)⟩, .failure 5] := by
  intro hEach
  have hSecond := hEach [.success ⟨(100, 50, 800, 0)⟩] (.failure 5) ⟨⟨(100, 50, 800, 0)⟩, _⟩
    (List.prefix_refl _) rfl
  exact hSecond.no_underflow rfl

end Defined

end CPU

end LeigodAPM
