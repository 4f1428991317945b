import LeigodAPM.Foundation.Loops
import LeigodAPM.SystemEye.InterfaceWalks

/-!
# The totals of the interface list

`+[NetObjc flow]` walks a list that has several entries for each interface, one for each
address family, and adds up four wrapping counters. Only the link-layer entries of the two
interfaces have a part in them.

* `flow_get`: each counter is the sum of its parts modulo `2 ^ 32`.
* `flow_totals`: the sums do not depend on the order of the list or on its other entries,
  and those of a concatenation are the sums of both.
-/

namespace LeigodAPM

open Foundation

namespace NetCounter

/-- The interface that the counter is about. -/
def interface : NetCounter → String
  | .wifiSend | .wifiReceived => "en0"
  | .wwanSend | .wwanReceived => "pdp_ip0"

/-- The bytes of an interface that the counter adds up. -/
def bytes : NetCounter → IfData → UInt32
  | .wifiSend | .wwanSend => IfData.ifi_obytes
  | .wifiReceived | .wwanReceived => IfData.ifi_ibytes

end NetCounter

namespace NetObjc

/-- A link-layer entry of the interface `name`. -/
def IsLink (name : String) (entry : Ifaddrs) : Prop :=
  entry.ifa_addr.map Sockaddr.sa_family = some AF_LINK ∧ entry.ifa_name = name

instance (name : String) (entry : Ifaddrs) : Decidable (IsLink name entry) :=
  inferInstanceAs (Decidable (_ ∧ _))

/-- What an entry has to add to a counter. -/
def part (c : NetCounter) (entry : Ifaddrs) : Option UInt32 :=
  if IsLink c.interface entry then entry.ifa_data.map c.bytes else none

/-- The sum over the entries of the counter's interface. -/
def total (c : NetCounter) (addrs : List Ifaddrs) : ℕ := tally (part c) addrs

/-- The entry is none of those that the counters add up. -/
def IsOther (entry : Ifaddrs) : Prop := ¬ IsLink "en0" entry ∧ ¬ IsLink "pdp_ip0" entry

section Totals

variable {addrs addrs' : List Ifaddrs} {entry : Ifaddrs}

theorem IsOther.not_isLink (hOther : IsOther entry) (c : NetCounter) :
    ¬ IsLink c.interface entry := by
  cases c with
  | wifiSend => exact hOther.1
  | wifiReceived => exact hOther.1
  | wwanSend => exact hOther.2
  | wwanReceived => exact hOther.2

theorem IsOther.part_eq_none (hOther : IsOther entry) (c : NetCounter) : part c entry = none :=
  if_neg (hOther.not_isLink c)

/-- Another entry with an address can be read. -/
theorem IsOther.hasData (hOther : IsOther entry) (hAddr : HasAddr entry) : HasData entry := by
  obtain ⟨addr, hSome⟩ := Option.isSome_iff_exists.mp hAddr
  refine ⟨addr, hSome, fun hFamily hName => ?_⟩
  have hLink : entry.ifa_addr.map Sockaddr.sa_family = some AF_LINK := by rw [hSome, ← hFamily]; rfl
  rcases hName with hWifi | hWwan
  · exact absurd ⟨hLink, hWifi⟩ hOther.1
  · exact absurd ⟨hLink, hWwan⟩ hOther.2

/-- The counter of an interface gets the bytes of its link-layer entries. -/
theorem counted_link (c : NetCounter) (result : NetModel) (sin : UInt32) (data : IfData) :
    (counted result ⟨c.interface, some ⟨AF_LINK, sin⟩, some data⟩).get c =
      result.get c + c.bytes data := by
  cases c with
  | wifiSend => rfl
  | wifiReceived => rfl
  | wwanSend => rfl
  | wwanReceived => rfl

/-- The counter of an interface is left alone by every other entry. -/
theorem counted_of_not_isLink (c : NetCounter) (result : NetModel)
    (hNot : ¬ IsLink c.interface entry) : (counted result entry).get c = result.get c := by
  rw [counted]
  split
  · rename_i addr data hAddr hData
    by_cases hFamily : addr.sa_family = AF_LINK
    · have hName : entry.ifa_name ≠ c.interface := by
        intro hEq
        exact hNot ⟨by rw [hAddr, ← hFamily]; rfl, hEq⟩
      rw [if_pos hFamily]
      split_ifs with hWifi hWwan
      · cases c with
        | wifiSend => exact absurd hWifi hName
        | wifiReceived => exact absurd hWifi hName
        | wwanSend => rfl
        | wwanReceived => rfl
      · cases c with
        | wifiSend => rfl
        | wifiReceived => rfl
        | wwanSend => exact absurd hWwan hName
        | wwanReceived => exact absurd hWwan hName
      · rfl
    · rw [if_neg hFamily]
  · rfl

/-- One step of the loop, counter by counter. -/
theorem tallies_counted (c : NetCounter) : Tallies counted (fun m => m.get c) (part c) := by
  intro result entry
  by_cases hLink : IsLink c.interface entry
  · obtain ⟨name, addr, data⟩ := entry
    obtain ⟨hFamily, rfl⟩ := hLink
    obtain ⟨⟨family, sin⟩, rfl, rfl⟩ := Option.map_eq_some_iff.mp hFamily
    rw [part, if_pos ⟨rfl, rfl⟩]
    cases data with
    | none => exact (UInt32.add_zero _).symm
    | some data => exact counted_link c result sin data
  · rw [part, if_neg hLink]
    exact (counted_of_not_isLink c result hLink).trans (UInt32.add_zero _).symm

/-- Each counter of a walk is the sum of its parts. -/
theorem flow_get (hAll : ∀ entry ∈ addrs, HasData entry) :
    ∃ m, flow (some addrs) [] = .ok (m, [addrs]) ∧
      ∀ c, (m.get c).toNat = total c addrs % UInt32.size := by
  refine ⟨addrs.foldl counted .zero, ?_, fun c => ?_⟩
  · rw [flow_some, guarded_flowEntry.foldlM_pass hAll]
    rfl
  · rw [(tallies_counted c).foldl_toNat addrs .zero, NetModel.zero_get]
    exact congrArg (· % UInt32.size) (Nat.zero_add _)

/-- The sums of a list decide the result of the walk. -/
theorem flow_of_total {m : NetModel} (hAll : ∀ entry ∈ addrs, HasData entry)
    (hTotals : ∀ c, total c addrs % UInt32.size = (m.get c).toNat) :
    flow (some addrs) [] = .ok (m, [addrs]) := by
  obtain ⟨m', hFlow, hGet⟩ := flow_get hAll
  have hEq : m' = m := by
    ext c
    rw [hGet c, hTotals c]
  rw [hFlow, hEq]

/-- The totals of a concatenation are the sums of the totals. -/
theorem total_append (c : NetCounter) (addrs addrs' : List Ifaddrs) :
    total c (addrs ++ addrs') = total c addrs + total c addrs' := tally_append addrs addrs'

end Totals

end NetObjc

/-- `Network.flow()`. -/
def Network.flow (getifaddrs : Option (List Ifaddrs)) :
    Walk (UInt32 × UInt32 × UInt32 × UInt32) := do
  let flow ← NetObjc.flow getifaddrs
  pure (flow.wifiSend, flow.wifiReceived, flow.wwanSend, flow.wwanReceived)

namespace NetObjc

/-- **Totals of the interfaces.** The four totals are sums modulo `2 ^ 32` over the link-layer
entries of their interface. They stay the same when the list is reordered and when another
entry is inserted or removed, and the totals of a concatenation are the sums of both. -/
theorem flow_totals (addrs : List Ifaddrs) (hAll : ∀ entry ∈ addrs, HasData entry) :
    ∃ m, flow (some addrs) [] = .ok (m, [addrs]) ∧
      Network.flow (some addrs) [] =
        .ok ((m.wifiSend, m.wifiReceived, m.wwanSend, m.wwanReceived), [addrs]) ∧
      (∀ c, (m.get c).toNat = total c addrs % UInt32.size) ∧
      (∀ addrs', addrs'.Perm addrs → flow (some addrs') [] = .ok (m, [addrs'])) ∧
      (∀ l l' other, addrs = l ++ l' → HasAddr other → IsOther other →
        flow (some (l ++ other :: l')) [] = .ok (m, [l ++ other :: l'])) ∧
      (∀ l l' other, addrs = l ++ other :: l' → IsOther other →
        flow (some (l ++ l')) [] = .ok (m, [l ++ l'])) ∧
      ∀ addrs' m', (∀ entry ∈ addrs', HasData entry) →
        flow (some addrs') [] = .ok (m', [addrs']) →
        ∃ m'', flow (some (addrs ++ addrs')) [] = .ok (m'', [addrs ++ addrs']) ∧
          ∀ c, (m''.get c).toNat = ((m.get c).toNat + (m'.get c).toNat) % UInt32.size := by
  obtain ⟨m, hFlow, hGet⟩ := flow_get hAll
  refine ⟨m, hFlow, ?_, hGet, ?_, ?_, ?_, ?_⟩
  · simp only [Network.flow, bind, StateT.bind, hFlow]
    rfl
  · intro addrs' hPerm
    apply flow_of_total
    · intro entry hMem
      exact hAll entry (hPerm.mem_iff.mp hMem)
    · intro c
      rw [hGet c, total, tally_perm hPerm, total]
  · intro l l' other hEq hAddr hOther
    subst hEq
    apply flow_of_total
    · intro entry hMem
      rcases List.mem_append.mp hMem with hLeft | hRight
      · exact hAll entry (List.mem_append_left l' hLeft)
      · rcases List.mem_cons.mp hRight with rfl | hRest
        · exact hOther.hasData hAddr
        · exact hAll entry (List.mem_append_right l hRest)
    · intro c
      rw [hGet c, total, tally_insert (hOther.part_eq_none c), total]
  · intro l l' other hEq hOther
    subst hEq
    apply flow_of_total
    · intro entry hMem
      rcases List.mem_append.mp hMem with hLeft | hRight
      · exact hAll entry (List.mem_append_left _ hLeft)
      · exact hAll entry (List.mem_append_right l (List.mem_cons_of_mem other hRight))
    · intro c
      rw [hGet c, total, total, tally_insert (hOther.part_eq_none c)]
  · intro addrs' m' hAll' hFlow'
    obtain ⟨m₁, hFlow₁, hGet₁⟩ := flow_get hAll'
    obtain rfl : m' = m₁ := by
      rw [hFlow₁] at hFlow'
      exact (Prod.mk.inj (Except.ok.inj hFlow')).1.symm
    have hBoth : ∀ entry ∈ addrs ++ addrs', HasData entry := by
      intro entry hMem
      rcases List.mem_append.mp hMem with hLeft | hRight
      · exact hAll entry hLeft
      · exact hAll' entry hRight
    obtain ⟨m'', hFlow'', hGet''⟩ := flow_get hBoth
    refine ⟨m'', hFlow'', fun c => ?_⟩
    rw [hGet'' c, hGet c, hGet₁ c, total_append, ← Nat.add_mod]

/-- Two entries of the interface "en0", one of them of the link layer. -/
theorem flow_totals_of_wifi :
    ∃ m, flow (some [⟨"en0", some ⟨AF_LINK, 0⟩, some ⟨7, 5⟩⟩,
          ⟨"en0", some ⟨AF_INET, 1⟩, none⟩]) [] =
        .ok (m, [[⟨"en0", some ⟨AF_LINK, 0⟩, some ⟨7, 5⟩⟩, ⟨"en0", some ⟨AF_INET, 1⟩, none⟩]]) ∧
      (m.get .wifiSend).toNat = 5 := by
  have hAll : ∀ entry ∈ [(⟨"en0", some ⟨AF_LINK, 0⟩, some ⟨7, 5⟩⟩ : Ifaddrs),
      ⟨"en0", some ⟨AF_INET, 1⟩, none⟩], HasData entry := by
    intro entry hMem
    simp only [List.mem_cons, List.not_mem_nil, or_false] at hMem
    rcases hMem with rfl | rfl
    · exact ⟨_, rfl, fun _ _ => rfl⟩
    · exact ⟨_, rfl, fun hFamily => absurd hFamily (by decide)⟩
  obtain ⟨m, hFlow, -, hGet, -⟩ := flow_totals _ hAll
  exact ⟨m, hFlow, (hGet .wifiSend).trans (by decide)⟩

end NetObjc

end LeigodAPM
