import LeigodAPM.SystemEye.ApplicationUsage

/-!
# What a call of `applicationUsage` leaves behind

A call is handed a region of memory and one right for each thread, and allocates two
buffers. It gives back neither the rights nor the buffers, and the address it passes to
`vm_deallocate` is not that of the region.

* `sample_cases`: what one call does to the resources of the task.
* `run_count`: over a run of calls everything but the regions accumulates.
* `never_releases`: no call releases what it acquired, and no run leaves the resources of
  the task unchanged.
-/

namespace LeigodAPM

open Foundation Machine

namespace CPU

/-- One call: what `task_threads` replies and `thread_info` answers. -/
structure Sample where
  reply : TaskThreads
  thread_info : ThreadAct → ThreadInfo

/-- The calls of the timer; `none` when the program stops. -/
def sample (F : FloatFormat) : Machine Resources Sample := fun s call =>
  match applicationUsage F call.reply call.thread_info s with
  | .ok (_, s') => some s'
  | .error _ => none

/-- What a call is handed and allocates. -/
def acquired (reply : TaskThreads) : List Resource :=
  .thinfo :: .thread_info_count :: reply.resources

/-- The region that a reply hands over, if any. -/
def regions (reply : TaskThreads) : List (ℕ × ℕ) :=
  reply.threads_array.elim [] fun array => [(array.address, array.count.toNat * threadSize.toNat)]

/-- The call has given `vm_deallocate` exactly the region that it was handed, and the task
holds what it held before. -/
structure Releases (reply : TaskThreads) (s s' : Resources) : Prop where
  deallocations : s'.deallocations = s.deallocations ++ regions reply
  held : s'.held.Perm s.held

section Leaks

variable {F : FloatFormat} {s s' : Resources} {call : Sample} {calls : List Sample} {r : Resource}

theorem sample_of_ok {usage : Double} (hCall : applicationUsage F call.reply call.thread_info s =
    .ok (usage, s')) : sample F s call = some s' := by rw [sample, hCall]

theorem sample_of_error {stop : Stop} (hCall : applicationUsage F call.reply call.thread_info s =
    .error stop) : sample F s call = none := by rw [sample, hCall]

/-- The resources after a call; it gives back at most the memory at the first port name. -/
theorem sample_cases (hStep : sample F s call = some s') :
    s' = s.acquire (acquired call.reply) ∨
      ∃ array, call.reply.threads_array = some array ∧
        s' = (s.acquire (acquired call.reply)).vm_deallocate array.pointee.toNat
          (array.count.toNat * threadSize.toNat) := by
  obtain ⟨⟨result, threads_array, unset⟩, thread_info⟩ := call
  have hAcquire : ∀ reply : TaskThreads, ((s.acquire [.thinfo]).acquire
      [.thread_info_count]).acquire reply.resources = s.acquire (acquired reply) := by
    intro reply
    simp [Resources.acquire, acquired]
  cases threads_array with
  | none =>
    left
    rw [← hAcquire]
    by_cases hResult : result = KERN_SUCCESS <;>
      simpa [sample, applicationUsage, threadBasicInfos, threadActPointers, hResult]
        using hStep.symm
  | some array =>
    right
    obtain rfl : result = KERN_SUCCESS := by
      by_contra hFailed
      cases unset hFailed
    refine ⟨array, rfl, ?_⟩
    by_cases hSize : array.count.toNat * threadSize.toNat < UInt32.size
    · obtain ⟨krsize, hNat, hCall⟩ := applicationUsage_success F array thread_info s hSize
      rw [← hAcquire, ← hNat]
      exact Option.some.inj (hStep.symm.trans (sample_of_ok hCall))
    · have hTrap : sample F s ⟨.success array, thread_info⟩ = none :=
        sample_of_error (applicationUsage_trap F array thread_info s hSize)
      cases hTrap.symm.trans hStep

/-- Only regions are ever given back. -/
theorem sample_count (hr : ∀ address size, r ≠ .region address size)
    (hStep : sample F s call = some s') :
    s'.held.count r = s.held.count r + (acquired call.reply).count r := by
  rcases sample_cases hStep with rfl | ⟨array, -, rfl⟩
  · exact List.count_append
  · rw [Resources.vm_deallocate, List.count_erase_of_ne (hr _ _)]
    exact List.count_append

/-- **Leaks.** Over a run everything but the regions accumulates. -/
theorem run_count (hr : ∀ address size, r ≠ .region address size)
    (hRun : (sample F).run s calls = some s') :
    s'.held.count r =
      s.held.count r + (calls.map fun call => (acquired call.reply).count r).sum := by
  induction calls generalizing s with
  | nil =>
    obtain rfl := Option.some.inj hRun
    simp
  | cons call calls ih =>
    obtain ⟨s₁, hStep, hRest⟩ := Option.bind_eq_some_iff.mp hRun
    rw [ih hRest, sample_count hr hStep, List.map_cons, List.sum_cons, Nat.add_assoc]

theorem not_perm_of_run (hRun : (sample F).run s (call :: calls) = some s') :
    ¬ s'.held.Perm s.held := by
  intro hPerm
  have hCount := run_count (r := .thinfo) nofun hRun
  rw [hPerm.count_eq, List.map_cons, List.sum_cons, acquired, List.count_cons_self] at hCount
  omega

end Leaks

/-- **Release.** Whatever `task_threads` and `thread_info` answer, no call gives back exactly
what it was handed and allocated, and no run of calls leaves the resources of the task
unchanged. -/
theorem never_releases (F : FloatFormat) (s : Resources) :
    (∀ call, ¬ ∃ s', sample F s call = some s' ∧ Releases call.reply s s') ∧
      ∀ call calls, ¬ ∃ s', (sample F).run s (call :: calls) = some s' ∧
        s'.held.Perm s.held := by
  constructor
  · intro call hCall
    obtain ⟨s', hStep, hReleases⟩ := hCall
    have hRun : (sample F).run s [call] = some s' := by simp [hStep]
    exact not_perm_of_run hRun hReleases.held
  · intro call calls hCalls
    obtain ⟨s', hRun, hPerm⟩ := hCalls
    exact not_perm_of_run hRun hPerm

/-- A call with one thread gives `vm_deallocate` the name of the thread's port. -/
theorem port_name_deallocated :
    ∃ s', sample .exact ⟨[], []⟩
        ⟨.success ⟨4096, [771], 1, rfl, 771, fun _ h => Option.some.inj h⟩,
          fun _ => ⟨KERN_SUCCESS, ⟨500, 0⟩⟩⟩ = some s' ∧
      s'.deallocations = [(771, 4)] ∧
      s'.held = [.thinfo, .thread_info_count, .region 4096 4, .right 771] ∧
      ¬ Releases (.success ⟨4096, [771], 1, rfl, 771, fun _ h => Option.some.inj h⟩) ⟨[], []⟩
        s' := by
  refine ⟨_, rfl, rfl, rfl, fun hReleases => ?_⟩
  cases hReleases.deallocations

end CPU

end LeigodAPM
