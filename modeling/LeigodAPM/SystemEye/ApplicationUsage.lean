import LeigodAPM.SystemEye.CPU
import Mathlib.Algebra.BigOperators.Group.List.Lemmas

/-!
# CPU usage of the application

`applicationUsage` lists the threads of the task, asks for the usage of each and adds up
those that are not idle. What the calls hand over and take back is a state of `Resources`.

* `queryAll_of_failure`: one failed query discards the usage of every thread.
* `applicationUsage_iff`: the sum over the threads that answered is returned exactly when no
  query fails, or that sum is zero.
-/

namespace LeigodAPM

open Foundation

def TH_FLAGS_IDLE : Int32 := 2
def TH_USAGE_SCALE : ℚ := 1000

/-- The fields of `thread_basic_info` that are read. -/
structure ThreadBasicInfo where
  cpu_usage : Int32
  flags : Int32

/-- The share of a processor that the thread used. -/
def ThreadBasicInfo.share (thread : ThreadBasicInfo) : ℚ :=
  thread.cpu_usage.toInt / TH_USAGE_SCALE

/-- What `thread_info` returns for a thread and leaves in its buffer. -/
structure ThreadInfo where
  kr : Int32
  info : ThreadBasicInfo

/-- The name of a thread port. -/
abbrev ThreadAct := UInt32

/-- The array that `task_threads` allocates in the task. -/
structure ThreadArray where
  address : ℕ
  acts : List ThreadAct
  count : UInt32
  length_acts : acts.length = count.toNat
  /-- What is stored at `address`. -/
  pointee : ThreadAct
  pointee_eq : ∀ act ∈ acts.head?, pointee = act

/-- What `task_threads` returns; the array stays unset when it fails. -/
structure TaskThreads where
  result : Int32
  threads_array : Option ThreadArray
  unset : result ≠ KERN_SUCCESS → threads_array = none

def TaskThreads.success (array : ThreadArray) : TaskThreads :=
  ⟨KERN_SUCCESS, some array, fun h => absurd rfl h⟩

inductive Resource
  | region (address size : ℕ)
  | right (act : ThreadAct)
  | thinfo
  | thread_info_count
  deriving DecidableEq

/-- What the task holds, and the calls of `vm_deallocate` it has made. -/
structure Resources where
  held : List Resource
  deallocations : List (ℕ × ℕ)

namespace Resources

def acquire (s : Resources) (r : List Resource) : Resources := { s with held := s.held ++ r }

/-- Only a region that is held can be given back. -/
def vm_deallocate (s : Resources) (address size : ℕ) : Resources :=
  ⟨s.held.erase (.region address size), s.deallocations ++ [(address, size)]⟩

end Resources

/-- The size of `thread_t`. -/
def threadSize : UInt32 := 4

/-- The region and the rights that come with the array. -/
def ThreadArray.resources (array : ThreadArray) : List Resource :=
  .region array.address (array.count.toNat * threadSize.toNat) :: array.acts.map .right

def TaskThreads.resources (reply : TaskThreads) : List Resource :=
  reply.threads_array.elim [] ThreadArray.resources

namespace CPU

/-- The threads, from the reply of `task_threads`. -/
def threadActPointers (reply : TaskThreads) (s : Resources) :
    Except Stop (List ThreadAct × Resources) :=
  let s := s.acquire reply.resources
  if reply.result ≠ KERN_SUCCESS then .ok ([], s)
  else
    match reply.threads_array with
    | none => .ok ([], s)
    | some array =>
      match checkedMul array.count threadSize with
      | none => .error .arithmeticOverflow
      -- The address is not that of the array but what the array stores first.
      | some krsize => .ok (array.acts, s.vm_deallocate array.pointee.toNat krsize.toNat)

/-- The loop of `threadBasicInfos`, with its early return. -/
def queryAll (thread_info : ThreadAct → ThreadInfo) :
    List ThreadAct → List ThreadBasicInfo → List ThreadBasicInfo
  | [], result => result
  | act_t :: rest, result =>
    if (thread_info act_t).kr ≠ KERN_SUCCESS then []
    else queryAll thread_info rest (result ++ [(thread_info act_t).info])

/-- The two buffers are allocated before the threads are listed. -/
def threadBasicInfos (reply : TaskThreads) (thread_info : ThreadAct → ThreadInfo)
    (s : Resources) : Except Stop (List ThreadBasicInfo × Resources) := do
  let (acts, s) ← threadActPointers reply ((s.acquire [.thinfo]).acquire [.thread_info_count])
  pure (queryAll thread_info acts [], s)

/-- The thread is not idle. -/
def flag (thread : ThreadBasicInfo) : Bool := !(thread.flags &&& TH_FLAGS_IDLE != 0)

/-- The body of the loop of `applicationUsage`. -/
def addUsage (F : FloatFormat) (result : Double) (thread : ThreadBasicInfo) : Double :=
  if flag thread = true then
    F.add result (F.div (F.ofRat thread.cpu_usage.toInt) (F.ofRat TH_USAGE_SCALE))
  else result

/-- The loop of `applicationUsage` and the scaling at its end. -/
def usageOf (F : FloatFormat) (threads : List ThreadBasicInfo) : Double :=
  F.mul (threads.foldl (addUsage F) (.fin 0)) (.fin 100)

def applicationUsage (F : FloatFormat) (reply : TaskThreads)
    (thread_info : ThreadAct → ThreadInfo) (s : Resources) :
    Except Stop (Double × Resources) := do
  let (threads, s) ← threadBasicInfos reply thread_info s
  pure (usageOf F threads, s)

/-! ## The threads that count -/

/-- The threads whose query succeeded and which are not idle. -/
def counted (thread_info : ThreadAct → ThreadInfo) (acts : List ThreadAct) :
    List ThreadBasicInfo :=
  (((acts.map thread_info).filter fun reply => reply.kr = KERN_SUCCESS).map
    fun reply => reply.info).filter flag

/-- The usage of the threads that count, in percent. -/
def percentUsage (thread_info : ThreadAct → ThreadInfo) (acts : List ThreadAct) : ℚ :=
  100 * ((counted thread_info acts).map ThreadBasicInfo.share).sum

/-- Every call with this array returns `usage`, whatever the task holds. -/
def Returns (array : ThreadArray) (thread_info : ThreadAct → ThreadInfo) (usage : ℚ) : Prop :=
  ∀ s, ∃ s', applicationUsage .exact (.success array) thread_info s = .ok (.fin usage, s')

section Usage

variable {thread_info : ThreadAct → ThreadInfo} {acts : List ThreadAct}

theorem queryAll_of_success (hAll : ∀ act ∈ acts, (thread_info act).kr = KERN_SUCCESS)
    (result : List ThreadBasicInfo) :
    queryAll thread_info acts result = result ++ acts.map fun act => (thread_info act).info := by
  induction acts generalizing result with
  | nil => simp [queryAll]
  | cons act rest ih =>
    have hFirst : ¬ (thread_info act).kr ≠ KERN_SUCCESS := not_not.mpr (hAll act (by simp))
    rw [queryAll, if_neg hFirst, ih fun x hx => hAll x (List.mem_cons_of_mem act hx)]
    simp

/-- One failure discards everything. -/
theorem queryAll_of_failure (hNot : ¬ ∀ act ∈ acts, (thread_info act).kr = KERN_SUCCESS)
    (result : List ThreadBasicInfo) : queryAll thread_info acts result = [] := by
  induction acts generalizing result with
  | nil => exact absurd nofun hNot
  | cons act rest ih =>
    rw [queryAll]
    by_cases hFirst : (thread_info act).kr = KERN_SUCCESS
    · rw [if_neg (not_not.mpr hFirst)]
      exact ih (fun hRest => hNot (List.forall_mem_cons.mpr ⟨hFirst, hRest⟩)) _
    · exact if_pos hFirst

theorem addUsage_exact (x : ℚ) (thread : ThreadBasicInfo) :
    addUsage .exact (.fin x) thread =
      .fin (if flag thread = true then x + thread.share else x) := by
  have hScale : TH_USAGE_SCALE ≠ 0 := by norm_num [TH_USAGE_SCALE]
  by_cases hFlag : flag thread = true
  · simp [addUsage, hFlag, FloatFormat.div_fin hScale, ThreadBasicInfo.share]
  · simp [addUsage, hFlag]

theorem foldl_addUsage (threads : List ThreadBasicInfo) (x : ℚ) :
    threads.foldl (addUsage .exact) (.fin x) =
      .fin (x + ((threads.filter flag).map ThreadBasicInfo.share).sum) := by
  induction threads generalizing x with
  | nil => simp
  | cons thread threads ih =>
    rw [List.foldl_cons, addUsage_exact, ih]
    by_cases hFlag : flag thread = true
    · rw [if_pos hFlag, List.filter_cons_of_pos hFlag, List.map_cons, List.sum_cons, add_assoc]
    · rw [if_neg hFlag, List.filter_cons_of_neg hFlag]

theorem usageOf_exact (threads : List ThreadBasicInfo) : usageOf .exact threads =
    .fin (100 * ((threads.filter flag).map ThreadBasicInfo.share).sum) := by
  rw [usageOf, foldl_addUsage, zero_add, FloatFormat.mul_fin, FloatFormat.ofRat_exact, mul_comm]

theorem counted_of_success (hAll : ∀ act ∈ acts, (thread_info act).kr = KERN_SUCCESS) :
    counted thread_info acts = (acts.map fun act => (thread_info act).info).filter flag := by
  have hKept : (acts.map thread_info).filter (fun reply => reply.kr = KERN_SUCCESS) =
      acts.map thread_info := by
    apply List.filter_eq_self.mpr
    intro reply hReply
    obtain ⟨act, hAct, rfl⟩ := List.mem_map.mp hReply
    exact decide_eq_true (hAll act hAct)
  rw [counted, hKept, List.map_map]
  rfl

/-- A call that does not trap, with the resources it leaves. -/
theorem applicationUsage_success (F : FloatFormat) (array : ThreadArray)
    (thread_info : ThreadAct → ThreadInfo) (s : Resources)
    (hSize : array.count.toNat * threadSize.toNat < UInt32.size) :
    ∃ krsize : UInt32, krsize.toNat = array.count.toNat * threadSize.toNat ∧
      applicationUsage F (.success array) thread_info s =
        .ok (usageOf F (queryAll thread_info array.acts []),
          (((s.acquire [.thinfo]).acquire [.thread_info_count]).acquire
            array.resources).vm_deallocate array.pointee.toNat krsize.toNat) := by
  obtain ⟨krsize, hMul, hNat⟩ := checkedMul_of_lt hSize
  refine ⟨krsize, hNat, ?_⟩
  have hPointers : ∀ s : Resources, threadActPointers (.success array) s =
      .ok (array.acts,
        (s.acquire array.resources).vm_deallocate array.pointee.toNat krsize.toNat) := by
    intro s
    simp [threadActPointers, TaskThreads.success, TaskThreads.resources, hMul]
  rw [applicationUsage, threadBasicInfos, hPointers]
  rfl

theorem applicationUsage_trap (F : FloatFormat) (array : ThreadArray)
    (thread_info : ThreadAct → ThreadInfo) (s : Resources)
    (hSize : ¬ array.count.toNat * threadSize.toNat < UInt32.size) :
    applicationUsage F (.success array) thread_info s = .error .arithmeticOverflow := by
  have hPointers : ∀ s : Resources, threadActPointers (.success array) s =
      .error .arithmeticOverflow := by
    intro s
    simp [threadActPointers, TaskThreads.success, checkedMul_eq_none hSize]
  rw [applicationUsage, threadBasicInfos, hPointers]
  rfl

theorem returns_iff {array : ThreadArray} {usage : ℚ} : Returns array thread_info usage ↔
    array.count.toNat * threadSize.toNat < UInt32.size ∧
      usageOf .exact (queryAll thread_info array.acts []) = .fin usage := by
  by_cases hSize : array.count.toNat * threadSize.toNat < UInt32.size
  · constructor
    · intro hReturns
      obtain ⟨s', hUsage⟩ := hReturns ⟨[], []⟩
      obtain ⟨krsize, -, hCall⟩ := applicationUsage_success .exact array thread_info ⟨[], []⟩ hSize
      rw [hCall] at hUsage
      exact ⟨hSize, (Prod.mk.inj (Except.ok.inj hUsage)).1⟩
    · intro hBoth s
      obtain ⟨-, hUsage⟩ := hBoth
      obtain ⟨krsize, -, hCall⟩ := applicationUsage_success .exact array thread_info s hSize
      rw [hCall, hUsage]
      exact ⟨_, rfl⟩
  · constructor
    · intro hReturns
      obtain ⟨s', hUsage⟩ := hReturns ⟨[], []⟩
      rw [applicationUsage_trap .exact array thread_info ⟨[], []⟩ hSize] at hUsage
      cases hUsage
    · intro hBoth
      exact absurd hBoth.1 hSize

theorem percentUsage_eq_zero_iff : percentUsage thread_info acts = 0 ↔
    ((counted thread_info acts).map fun thread => thread.cpu_usage.toInt).sum = 0 := by
  have hShares : ∀ threads : List ThreadBasicInfo, (threads.map ThreadBasicInfo.share).sum =
      ((threads.map fun thread => thread.cpu_usage.toInt).sum : ℤ) / TH_USAGE_SCALE := by
    intro threads
    induction threads with
    | nil => simp
    | cons thread threads ih =>
      rw [List.map_cons, List.sum_cons, ih, List.map_cons, List.sum_cons, ThreadBasicInfo.share]
      push_cast
      ring
  have hScale : TH_USAGE_SCALE ≠ 0 := by norm_num [TH_USAGE_SCALE]
  rw [percentUsage, hShares, mul_eq_zero, or_iff_right (by norm_num), div_eq_zero_iff,
    or_iff_left hScale, Int.cast_eq_zero]

/-- What the loops compute is the usage of the threads that count, or zero. -/
theorem usageOf_queryAll_iff :
    usageOf .exact (queryAll thread_info acts []) = .fin (percentUsage thread_info acts) ↔
      (∀ act ∈ acts, (thread_info act).kr = KERN_SUCCESS) ∨
        ((counted thread_info acts).map fun thread => thread.cpu_usage.toInt).sum = 0 := by
  by_cases hAll : ∀ act ∈ acts, (thread_info act).kr = KERN_SUCCESS
  · rw [queryAll_of_success hAll, List.nil_append, usageOf_exact, ← counted_of_success hAll]
    exact iff_of_true rfl (Or.inl hAll)
  · rw [queryAll_of_failure hAll, usageOf_exact, ← percentUsage_eq_zero_iff]
    constructor
    · intro hEq
      have hZero := Double.fin.inj hEq
      right
      simpa using hZero.symm
    · intro hEither
      rcases hEither with h | hZero
      · exact absurd h hAll
      · rw [hZero]
        simp

/-- The threads that count do not depend on the order of the threads. -/
theorem counted_perm (thread_info : ThreadAct → ThreadInfo) {acts' : List ThreadAct}
    (hPerm : acts'.Perm acts) :
    (counted thread_info acts').Perm (counted thread_info acts) :=
  (((hPerm.map thread_info).filter _).map _).filter _

end Usage

/-- **Usage of the application.** A call returns the usage of the threads whose query succeeded
and which are not idle, in whatever order the threads come, exactly when the size of the array
fits in 32 bits and no query fails, or that usage is zero. -/
theorem applicationUsage_iff (thread_info : ThreadAct → ThreadInfo) (array : ThreadArray) :
    (Returns array thread_info (percentUsage thread_info array.acts) ∧
      ∀ array' : ThreadArray, array'.acts.Perm array.acts →
        Returns array' thread_info (percentUsage thread_info array.acts)) ↔
      array.count.toNat * threadSize.toNat < UInt32.size ∧
        ((∀ act ∈ array.acts, (thread_info act).kr = KERN_SUCCESS) ∨
          ((counted thread_info array.acts).map fun thread => thread.cpu_usage.toInt).sum = 0) := by
  constructor
  · intro hBoth
    obtain ⟨hSize, hUsage⟩ := returns_iff.mp hBoth.1
    exact ⟨hSize, usageOf_queryAll_iff.mp hUsage⟩
  · intro hBoth
    obtain ⟨hSize, hCondition⟩ := hBoth
    suffices hPerm : ∀ array' : ThreadArray, array'.acts.Perm array.acts →
        Returns array' thread_info (percentUsage thread_info array.acts) from
      ⟨hPerm array (List.Perm.refl _), hPerm⟩
    intro array' hPerm
    have hCounted := counted_perm thread_info hPerm
    have hPercent : percentUsage thread_info array'.acts = percentUsage thread_info array.acts := by
      rw [percentUsage, percentUsage, (hCounted.map _).sum_eq]
    have hCount : array'.count.toNat = array.count.toNat := by
      rw [← array'.length_acts, ← array.length_acts, hPerm.length_eq]
    rw [returns_iff, hCount, ← hPercent, usageOf_queryAll_iff]
    refine ⟨hSize, hCondition.imp (fun hAll act hAct => hAll act (hPerm.mem_iff.mp hAct)) ?_⟩
    intro hZero
    rwa [(hCounted.map _).sum_eq]

/-- Of two threads one has ended before it is asked; the other uses half a processor. -/
theorem ended_thread_hides_usage :
    percentUsage (fun act => if act = 1 then ⟨4, ⟨0, 0⟩⟩ else ⟨KERN_SUCCESS, ⟨500, 0⟩⟩)
        [1, 2] = 50 ∧
      ¬ Returns ⟨4096, [1, 2], 2, rfl, 1, fun _ h => Option.some.inj h⟩
        (fun act => if act = 1 then ⟨4, ⟨0, 0⟩⟩ else ⟨KERN_SUCCESS, ⟨500, 0⟩⟩) 50 := by
  refine ⟨by decide +kernel, fun hReturns => ?_⟩
  have hUsage := (returns_iff.mp hReturns).2
  rw [queryAll_of_failure (fun hAll => absurd (hAll 1 (by simp)) (by decide))] at hUsage
  rw [usageOf_exact] at hUsage
  simp at hUsage

end CPU

end LeigodAPM
