import LeigodAPM.SystemEye.NetObjc

/-!
# What the interface walks read and free

The three walks of `NetObjc` read the address of every entry, and `flow` reads the link
data of the entries it counts. The two address walks free the list after the branch of the
successful call, and so also when `getifaddrs` did not set its out-pointer.

* `flow_iff`, `wifiIPAddress_iff`, `cellIPAddress_iff`: when each walk reads only what
  `getifaddrs` provides and frees exactly the list it was given.
* `walks_onlyProvided_iff`: when all three do.
-/

namespace LeigodAPM

open Foundation

namespace NetObjc

variable {inet_ntoa : UInt32 → String} {inet_ntop : UInt32 → Option String}
  {addrs : List Ifaddrs} {freed : List (List Ifaddrs)}

/-- The walk faults on no pointer, and frees the list of a successful call once and nothing
else. -/
def OnlyProvided {α : Type} (walk : Option (List Ifaddrs) → Walk α)
    (getifaddrs : Option (List Ifaddrs)) : Prop :=
  ∃ result, walk getifaddrs [] = .ok (result, getifaddrs.toList)

/-- The entry has an address. -/
def HasAddr (entry : Ifaddrs) : Prop := entry.ifa_addr.isSome = true

/-- The entry has an address, and data if it is a link-layer entry that `flow` counts. -/
def HasData (entry : Ifaddrs) : Prop :=
  ∃ addr, entry.ifa_addr = some addr ∧ (addr.sa_family = AF_LINK →
    entry.ifa_name = "en0" ∨ entry.ifa_name = "pdp_ip0" → entry.ifa_data.isSome = true)

/-- The internet address of an entry of the interface `name`. -/
def inetAddress (name : String) (entry : Ifaddrs) : Option UInt32 :=
  match entry.ifa_addr with
  | some addr =>
    if addr.sa_family = AF_INET then
      if entry.ifa_name = name then some addr.sin_addr else none
    else none
  | none => none

/-! ## The address walks -/

theorem guarded_addressEntry (name : String) (text : UInt32 → Option String) :
    Guarded (addressEntry name text) HasAddr
      (fun result temp => (inetAddress name temp).elim result text) .nullPointer where
  pass := by
    intro result entry freed hAddr
    obtain ⟨ifaName, addr, data⟩ := entry
    obtain ⟨addr, rfl⟩ := Option.isSome_iff_exists.mp hAddr
    by_cases hFamily : addr.sa_family = AF_INET
    · by_cases hName : ifaName = name
      · simp only [addressEntry, inetAddress, deref, pure_bind, hFamily, hName, if_true]
        rfl
      · simp only [addressEntry, inetAddress, deref, pure_bind, hFamily, hName, if_true, if_false]
        rfl
    · simp only [addressEntry, inetAddress, deref, pure_bind, hFamily, if_false]
      rfl
  fail := by
    intro result entry freed hAddr
    obtain ⟨ifaName, addr, data⟩ := entry
    obtain rfl : addr = none := Option.not_isSome_iff_eq_none.mp hAddr
    rfl

/-- What an address walk does with the list of a successful call. -/
theorem ipAddress_some (name : String) (text : UInt32 → Option String) (addrs : List Ifaddrs)
    (freed : List (List Ifaddrs)) : ipAddress name text (some addrs) freed =
      (addrs.foldlM (addressEntry name text) none freed).bind
        fun p => .ok (p.1, p.2 ++ [addrs]) := rfl

/-- The address of the last matching entry. -/
theorem ipAddress_of_hasAddr (name : String) (text : UInt32 → Option String)
    (hAll : ∀ entry ∈ addrs, HasAddr entry) (freed : List (List Ifaddrs)) :
    ipAddress name text (some addrs) freed =
      .ok ((addrs.filterMap (inetAddress name)).getLast?.bind text, freed ++ [addrs]) := by
  have hLast := foldl_last_write (inetAddress name) text addrs none
  rw [ipAddress_some, (guarded_addressEntry name text).foldlM_pass hAll, hLast]
  cases (addrs.filterMap (inetAddress name)).getLast? <;> rfl

theorem ipAddress_of_not (name : String) (text : UInt32 → Option String)
    (hNot : ¬ ∀ entry ∈ addrs, HasAddr entry) (freed : List (List Ifaddrs)) :
    ipAddress name text (some addrs) freed = .error .nullPointer := by
  rw [ipAddress_some, (guarded_addressEntry name text).foldlM_fail hNot]
  rfl

theorem ipAddress_none (name : String) (text : UInt32 → Option String)
    (freed : List (List Ifaddrs)) : ipAddress name text none freed = .error .unsetPointer := rfl

/-- The address walks run through exactly on a list in which every entry has an address. -/
theorem ipAddress_iff (name : String) (text : UInt32 → Option String)
    (getifaddrs : Option (List Ifaddrs)) :
    OnlyProvided (ipAddress name text) getifaddrs ↔
      ∃ addrs, getifaddrs = some addrs ∧ ∀ entry ∈ addrs, HasAddr entry := by
  cases getifaddrs with
  | none =>
    constructor
    · intro hProvided
      obtain ⟨result, hRun⟩ := hProvided
      rw [ipAddress_none] at hRun
      cases hRun
    · intro hSucceeds
      obtain ⟨addrs, hEq, -⟩ := hSucceeds
      cases hEq
  | some addrs =>
    constructor
    · intro hProvided
      obtain ⟨result, hRun⟩ := hProvided
      refine ⟨addrs, rfl, ?_⟩
      by_contra hNot
      rw [ipAddress_of_not name text hNot] at hRun
      cases hRun
    · intro hSucceeds
      obtain ⟨_, hEq, hAll⟩ := hSucceeds
      obtain rfl := Option.some.inj hEq
      exact ⟨_, ipAddress_of_hasAddr name text hAll []⟩

theorem wifiIPAddress_iff (inet_ntoa : UInt32 → String) (getifaddrs : Option (List Ifaddrs)) :
    OnlyProvided (wifiIPAddress inet_ntoa) getifaddrs ↔
      ∃ addrs, getifaddrs = some addrs ∧ ∀ entry ∈ addrs, HasAddr entry :=
  ipAddress_iff "en0" _ getifaddrs

/-- The test for an empty text at the end. -/
theorem cellIPAddress_eq (inet_ntop : UInt32 → Option String)
    (getifaddrs : Option (List Ifaddrs)) (freed : List (List Ifaddrs)) :
    cellIPAddress inet_ntop getifaddrs freed =
      (ipAddress "pdp_ip0" inet_ntop getifaddrs freed).map fun p =>
        (p.1.filter fun address => 0 < address.length, p.2) := by
  cases hRun : ipAddress "pdp_ip0" inet_ntop getifaddrs freed with
  | error fault =>
    simp only [cellIPAddress, bind, StateT.bind, hRun]
    rfl
  | ok p =>
    obtain ⟨result, freed'⟩ := p
    cases result with
    | none =>
      simp only [cellIPAddress, bind, StateT.bind, hRun]
      rfl
    | some address =>
      by_cases hEmpty : address.length ≤ 0
      · simp only [cellIPAddress, bind, StateT.bind, hRun, Except.bind, if_pos hEmpty]
        simp only [Except.map, Option.filter, Nat.not_lt.mpr hEmpty]
        rfl
      · simp only [cellIPAddress, bind, StateT.bind, hRun, Except.bind, if_neg hEmpty]
        simp only [Except.map, Option.filter, Nat.not_le.mp hEmpty]
        rfl

theorem cellIPAddress_iff (inet_ntop : UInt32 → Option String)
    (getifaddrs : Option (List Ifaddrs)) :
    OnlyProvided (cellIPAddress inet_ntop) getifaddrs ↔
      ∃ addrs, getifaddrs = some addrs ∧ ∀ entry ∈ addrs, HasAddr entry := by
  rw [← ipAddress_iff "pdp_ip0" inet_ntop]
  constructor
  · intro hProvided
    obtain ⟨result, hRun⟩ := hProvided
    rw [cellIPAddress_eq] at hRun
    cases hWalk : ipAddress "pdp_ip0" inet_ntop getifaddrs [] with
    | error fault =>
      rw [hWalk] at hRun
      cases hRun
    | ok p =>
      rw [hWalk] at hRun
      obtain ⟨-, hFreed⟩ := Prod.mk.inj (Except.ok.inj hRun)
      exact ⟨p.1, by rw [hWalk, ← hFreed]⟩
  · intro hProvided
    obtain ⟨result, hWalk⟩ := hProvided
    exact ⟨_, by rw [cellIPAddress_eq, hWalk]; rfl⟩

/-! ## The traffic walk -/

/-- What an entry with the pointers that `flow` reads adds to the totals. -/
def counted (result : NetModel) (entry : Ifaddrs) : NetModel :=
  match entry.ifa_addr, entry.ifa_data with
  | some addr, some networkStatisc =>
    if addr.sa_family = AF_LINK then
      if entry.ifa_name = "en0" then
        { result with
          wifiSend := result.wifiSend + networkStatisc.ifi_obytes
          wifiReceived := result.wifiReceived + networkStatisc.ifi_ibytes }
      else if entry.ifa_name = "pdp_ip0" then
        { result with
          wwanSend := result.wwanSend + networkStatisc.ifi_obytes
          wwanReceived := result.wwanReceived + networkStatisc.ifi_ibytes }
      else result
    else result
  | _, _ => result

theorem guarded_flowEntry : Guarded flowEntry HasData counted .nullPointer where
  pass := by
    intro result entry freed hEntry
    obtain ⟨name, addr, data⟩ := entry
    obtain ⟨⟨family, sin⟩, rfl, hData⟩ := hEntry
    by_cases hFamily : family = AF_LINK
    · subst hFamily
      cases data with
      | some data => exact flowEntry_link result name sin data freed
      | none =>
        -- Only an entry of another interface may come without data.
        have hWifi : name ≠ "en0" := fun hEq => nomatch hData rfl (Or.inl hEq)
        have hWwan : name ≠ "pdp_ip0" := fun hEq => nomatch hData rfl (Or.inr hEq)
        simp only [flowEntry, counted, deref, pure_bind, if_true, hWifi, hWwan, if_false]
        rfl
    · simp only [flowEntry, deref, pure_bind, hFamily, if_false]
      cases data with
      | none => rfl
      | some data =>
        simp only [counted, hFamily, if_false]
        rfl
  fail := by
    intro result entry freed hNot
    obtain ⟨name, addr, data⟩ := entry
    cases addr with
    | none => rfl
    | some addr =>
      obtain ⟨family, sin⟩ := addr
      have hMissing : family = AF_LINK ∧ (name = "en0" ∨ name = "pdp_ip0") ∧ data = none := by
        by_contra hElse
        refine hNot ⟨_, rfl, fun hFamily hName => ?_⟩
        cases data with
        | none => exact absurd ⟨hFamily, hName, rfl⟩ hElse
        | some data => rfl
      obtain ⟨rfl, hName, rfl⟩ := hMissing
      rcases hName with rfl | rfl
      · rfl
      · rfl

theorem flow_some (addrs : List Ifaddrs) (freed : List (List Ifaddrs)) :
    flow (some addrs) freed = (addrs.foldlM flowEntry .zero freed).bind
      fun p => .ok (p.1, p.2 ++ [addrs]) := rfl

/-- A failed `getifaddrs` is not followed by a read or a release. -/
theorem flow_iff (getifaddrs : Option (List Ifaddrs)) : OnlyProvided flow getifaddrs ↔
    ∀ addrs, getifaddrs = some addrs → ∀ entry ∈ addrs, HasData entry := by
  constructor
  · intro hProvided addrs hEq
    obtain ⟨result, hRun⟩ := hProvided
    by_contra hNot
    rw [hEq, flow_some, guarded_flowEntry.foldlM_fail hNot] at hRun
    cases hRun
  · intro hAll
    cases getifaddrs with
    | none => exact ⟨.zero, rfl⟩
    | some addrs =>
      refine ⟨addrs.foldl counted .zero, ?_⟩
      rw [flow_some, guarded_flowEntry.foldlM_pass (hAll addrs rfl)]
      rfl

/-! ## All three -/

theorem HasData.hasAddr {entry : Ifaddrs} (hData : HasData entry) : HasAddr entry := by
  obtain ⟨addr, hAddr, -⟩ := hData
  rw [HasAddr, hAddr]
  rfl

/-- **What the walks use.** All three walks read only what `getifaddrs` provides, and free the
list of a successful call exactly once and nothing else, exactly when the call succeeds, every
entry has an address, and every link-layer entry of the two interfaces has data. -/
theorem walks_onlyProvided_iff (inet_ntoa : UInt32 → String)
    (inet_ntop : UInt32 → Option String) (getifaddrs : Option (List Ifaddrs)) :
    (OnlyProvided flow getifaddrs ∧ OnlyProvided (wifiIPAddress inet_ntoa) getifaddrs ∧
      OnlyProvided (cellIPAddress inet_ntop) getifaddrs) ↔
      ∃ addrs, getifaddrs = some addrs ∧ ∀ entry ∈ addrs, HasData entry := by
  rw [flow_iff, wifiIPAddress_iff, cellIPAddress_iff]
  constructor
  · intro hWalks
    obtain ⟨hFlow, ⟨addrs, rfl, -⟩, -⟩ := hWalks
    exact ⟨addrs, rfl, hFlow addrs rfl⟩
  · intro hSucceeds
    obtain ⟨addrs, rfl, hAll⟩ := hSucceeds
    have hAddr : ∀ entry ∈ addrs, HasAddr entry := fun entry h => (hAll entry h).hasAddr
    refine ⟨?_, ⟨addrs, rfl, hAddr⟩, ⟨addrs, rfl, hAddr⟩⟩
    intro addrs' hEq
    obtain rfl := Option.some.inj hEq
    exact hAll

/-- A failed call leaves a pointer that the address walks free, and an entry without an
address is read by all three. -/
theorem walks_use_missing_pointers :
    ¬ OnlyProvided (wifiIPAddress fun _ => "192.168.0.2") none ∧
      ¬ OnlyProvided flow (some [⟨"utun0", none, none⟩]) := by
  refine ⟨?_, ?_⟩
  · intro hProvided
    obtain ⟨result, hRun⟩ := hProvided
    cases hRun
  · intro hProvided
    obtain ⟨result, hRun⟩ := hProvided
    cases hRun

end NetObjc

end LeigodAPM
