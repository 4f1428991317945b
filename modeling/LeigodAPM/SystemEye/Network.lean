import LeigodAPM.SystemEye.InterfaceWalks

/-!
# Connectivity

`Network.isConnectedToWifi` and `Network.isConnectedToCell` ask for the internet address of
one interface and guard on its length. The guard lets only an empty address through.

* `agrees_iff`: the three answers about one interface agree exactly when the list has no
  internet entry of it.
* `connectivity_iff`: the same for both interfaces.
-/

namespace LeigodAPM

open Foundation NetObjc

namespace Network

/-- What `isConnectedToWifi` and `isConnectedToCell` share. -/
def isConnected (ipAddress : Walk (Option String)) : Walk Bool := do
  match ← ipAddress with
  | none => pure false
  | some address => if ¬ address.length ≤ 0 then pure false else pure true

def wifiIPAddress (inet_ntoa : UInt32 → String) (getifaddrs : Option (List Ifaddrs)) :
    Walk (Option String) := NetObjc.wifiIPAddress inet_ntoa getifaddrs

def isConnectedToWifi (inet_ntoa : UInt32 → String) (getifaddrs : Option (List Ifaddrs)) :
    Walk Bool := isConnected (wifiIPAddress inet_ntoa getifaddrs)

def cellIPAddress (inet_ntop : UInt32 → Option String) (getifaddrs : Option (List Ifaddrs)) :
    Walk (Option String) := NetObjc.cellIPAddress inet_ntop getifaddrs

def isConnectedToCell (inet_ntop : UInt32 → Option String)
    (getifaddrs : Option (List Ifaddrs)) : Walk Bool :=
  isConnected (cellIPAddress inet_ntop getifaddrs)

/-- The list has an internet entry of the interface `name`. -/
def HasEntry (name : String) (addrs : List Ifaddrs) : Prop :=
  ∃ entry ∈ addrs, ∃ addr, entry.ifa_addr = some addr ∧ addr.sa_family = AF_INET ∧
    entry.ifa_name = name

/-- The two answers about the interface `name` agree with the list, and the address is that
of its last internet entry. -/
def Agrees (name : String) (text : UInt32 → Option String) (addrs : List Ifaddrs)
    (connected : Walk Bool) (ipAddress : Walk (Option String)) : Prop :=
  ∃ answer address, connected [] = .ok (answer, [addrs]) ∧
    ipAddress [] = .ok (address, [addrs]) ∧
    (answer = true ↔ HasEntry name addrs) ∧ (HasEntry name addrs ↔ address ≠ none) ∧
    address = (addrs.filterMap (inetAddress name)).getLast?.bind text

/-- `text` never fails and is never empty. -/
def Texts (text : UInt32 → Option String) : Prop := ∀ addr, ∃ t, text addr = some t ∧ t ≠ ""

/-! ## One interface -/

section Interface

variable {name : String} {text : UInt32 → Option String} {addrs : List Ifaddrs}
  {ipAddress : Walk (Option String)}

theorem inetAddress_eq_some {entry : Ifaddrs} {a : UInt32} :
    inetAddress name entry = some a ↔ ∃ addr, entry.ifa_addr = some addr ∧
      addr.sa_family = AF_INET ∧ entry.ifa_name = name ∧ addr.sin_addr = a := by
  rw [inetAddress]
  cases entry.ifa_addr with
  | none => simp
  | some addr => by_cases hFamily : addr.sa_family = AF_INET <;> simp [hFamily]

/-- There is a last address exactly when there is an entry. -/
theorem hasEntry_iff : HasEntry name addrs ↔
    ∃ a, (addrs.filterMap (inetAddress name)).getLast? = some a := by
  rw [← Option.isSome_iff_exists, List.getLast?_isSome]
  constructor
  · intro hEntry
    obtain ⟨entry, hMem, addr, hAddr, hFamily, hName⟩ := hEntry
    have hSome := inetAddress_eq_some.mpr ⟨addr, hAddr, hFamily, hName, rfl⟩
    exact List.ne_nil_of_mem (List.mem_filterMap.mpr ⟨entry, hMem, hSome⟩)
  · intro hNe
    obtain ⟨a, ha⟩ := List.exists_mem_of_ne_nil _ hNe
    obtain ⟨entry, hMem, hSome⟩ := List.mem_filterMap.mp ha
    obtain ⟨addr, hAddr, hFamily, hName, -⟩ := inetAddress_eq_some.mp hSome
    exact ⟨entry, hMem, addr, hAddr, hFamily, hName⟩

theorem isConnected_eq {address : Option String} {freed : List (List Ifaddrs)}
    (hAddress : ipAddress [] = .ok (address, freed)) :
    isConnected ipAddress [] = .ok (address.any fun a => a.length ≤ 0, freed) := by
  cases address with
  | none =>
    simp only [isConnected, bind, StateT.bind, hAddress]
    rfl
  | some address =>
    by_cases hEmpty : address.length ≤ 0
    · simp only [isConnected, bind, StateT.bind, hAddress, Except.bind, hEmpty, not_true, if_false]
      simp only [Option.any, hEmpty, decide_true]
      rfl
    · simp only [isConnected, bind, StateT.bind, hAddress, Except.bind, hEmpty, not_false_iff,
        if_true]
      simp only [Option.any, hEmpty, decide_false]
      rfl

/-- The answers about one interface agree exactly when it has no internet entry. -/
theorem agrees_iff (hTexts : Texts text)
    (hAddress : ipAddress [] =
      .ok ((addrs.filterMap (inetAddress name)).getLast?.bind text, [addrs])) :
    Agrees name text addrs (isConnected ipAddress) ipAddress ↔ ¬ HasEntry name addrs := by
  constructor
  · intro hAgrees hEntry
    obtain ⟨answer, address, hAnswer, hAddress', hAnswer_iff, -, hEq⟩ := hAgrees
    obtain ⟨a, hLast⟩ := hasEntry_iff.mp hEntry
    obtain ⟨t, hText, hNe⟩ := hTexts a
    rw [isConnected_eq hAddress, hLast, Option.bind_some, hText] at hAnswer
    have hTrue : answer = true := hAnswer_iff.mpr hEntry
    -- The guard turns a nonempty address away.
    have hEmpty : t.length ≤ 0 := by
      have hAny := (Prod.mk.inj (Except.ok.inj hAnswer)).1
      rw [hTrue] at hAny
      exact of_decide_eq_true hAny
    exact hNe (String.length_eq_zero_iff.mp (Nat.le_zero.mp hEmpty))
  · intro hNone
    have hLast : (addrs.filterMap (inetAddress name)).getLast? = none := by
      by_contra hSome
      exact hNone (hasEntry_iff.mpr (Option.ne_none_iff_exists'.mp hSome))
    rw [hLast, Option.bind_none] at hAddress
    refine ⟨false, none, isConnected_eq hAddress, hAddress, ?_, ?_, ?_⟩
    · simp [hNone]
    · simp [hNone]
    · rw [hLast, Option.bind_none]

end Interface

/-! ## Both interfaces -/

theorem texts_inet_ntoa {inet_ntoa : UInt32 → String} (hText : ∀ addr, inet_ntoa addr ≠ "") :
    Texts fun addr => some (inet_ntoa addr) := fun addr => ⟨_, rfl, hText addr⟩

/-- With nonempty texts the address of the cell interface passes the test at its end. -/
theorem cellIPAddress_of_hasAddr {inet_ntop : UInt32 → Option String} (hTexts : Texts inet_ntop)
    {addrs : List Ifaddrs} (hAll : ∀ entry ∈ addrs, HasAddr entry) :
    cellIPAddress inet_ntop (some addrs) [] =
      .ok ((addrs.filterMap (inetAddress "pdp_ip0")).getLast?.bind inet_ntop, [addrs]) := by
  rw [cellIPAddress, cellIPAddress_eq, ipAddress_of_hasAddr "pdp_ip0" inet_ntop hAll]
  cases (addrs.filterMap (inetAddress "pdp_ip0")).getLast? with
  | none => rfl
  | some a =>
    obtain ⟨t, hText, hNe⟩ := hTexts a
    have hPos : 0 < t.length := Nat.pos_of_ne_zero fun h => hNe (String.length_eq_zero_iff.mp h)
    simp [Except.map, hText, Option.filter, hPos]

/-- **Connectivity.** On a list of a successful `getifaddrs` in which every entry has an
address, the answers about the two interfaces agree with the list exactly when it has no
internet entry of either of them. -/
theorem connectivity_iff (inet_ntoa : UInt32 → String) (inet_ntop : UInt32 → Option String)
    (hNtoa : ∀ addr, inet_ntoa addr ≠ "")
    (hNtop : ∀ addr, ∃ text, inet_ntop addr = some text ∧ text ≠ "")
    (addrs : List Ifaddrs) (hAll : ∀ entry ∈ addrs, HasAddr entry) :
    (Agrees "en0" (fun addr => some (inet_ntoa addr)) addrs
        (isConnectedToWifi inet_ntoa (some addrs)) (wifiIPAddress inet_ntoa (some addrs)) ∧
      Agrees "pdp_ip0" inet_ntop addrs
        (isConnectedToCell inet_ntop (some addrs)) (cellIPAddress inet_ntop (some addrs))) ↔
      ¬ HasEntry "en0" addrs ∧ ¬ HasEntry "pdp_ip0" addrs := by
  have hWifi := agrees_iff (texts_inet_ntoa hNtoa) (ipAddress_of_hasAddr "en0" _ hAll [])
  have hCell := agrees_iff hNtop (cellIPAddress_of_hasAddr hNtop hAll)
  exact and_congr hWifi hCell

/-- The dotted quad of an address in network order. -/
def dottedQuad (addr : UInt32) : String :=
  toString (addr.toNat % 256) ++ "." ++ toString (addr.toNat / 256 % 256) ++ "." ++
    toString (addr.toNat / 65536 % 256) ++ "." ++ toString (addr.toNat / 16777216)

theorem dottedQuad_ne_empty (addr : UInt32) : dottedQuad addr ≠ "" := by
  intro hEmpty
  have hLength := congrArg String.length hEmpty
  simp only [dottedQuad, String.length_append, String.length_empty] at hLength
  have hDot : ".".length = 1 := rfl
  omega

theorem connectivity_iff_of_wifi :
    (Agrees "en0" (fun addr => some (dottedQuad addr)) [⟨"en0", some ⟨AF_INET, 33597632⟩, none⟩]
        (isConnectedToWifi dottedQuad (some [⟨"en0", some ⟨AF_INET, 33597632⟩, none⟩]))
        (wifiIPAddress dottedQuad (some [⟨"en0", some ⟨AF_INET, 33597632⟩, none⟩])) ∧
      Agrees "pdp_ip0" (fun addr => some (dottedQuad addr))
        [⟨"en0", some ⟨AF_INET, 33597632⟩, none⟩]
        (isConnectedToCell (fun addr => some (dottedQuad addr))
          (some [⟨"en0", some ⟨AF_INET, 33597632⟩, none⟩]))
        (cellIPAddress (fun addr => some (dottedQuad addr))
          (some [⟨"en0", some ⟨AF_INET, 33597632⟩, none⟩]))) ↔
      ¬ HasEntry "en0" [⟨"en0", some ⟨AF_INET, 33597632⟩, none⟩] ∧
        ¬ HasEntry "pdp_ip0" [⟨"en0", some ⟨AF_INET, 33597632⟩, none⟩] :=
  connectivity_iff dottedQuad (fun addr => some (dottedQuad addr)) dottedQuad_ne_empty
    (fun addr => ⟨_, rfl, dottedQuad_ne_empty addr⟩) _ (by simp [HasAddr])

/-- A device with a wireless address is not connected. -/
theorem wifi_address_not_connected :
    ¬ Agrees "en0" (fun addr => some (dottedQuad addr)) [⟨"en0", some ⟨AF_INET, 33597632⟩, none⟩]
        (isConnectedToWifi dottedQuad (some [⟨"en0", some ⟨AF_INET, 33597632⟩, none⟩]))
        (wifiIPAddress dottedQuad (some [⟨"en0", some ⟨AF_INET, 33597632⟩, none⟩])) := by
  intro hAgrees
  have hNone := (agrees_iff (texts_inet_ntoa dottedQuad_ne_empty)
    (ipAddress_of_hasAddr "en0" _ (by simp [HasAddr]) [])).mp hAgrees
  exact hNone ⟨_, List.mem_cons_self, _, rfl, rfl, rfl⟩

end Network

end LeigodAPM
