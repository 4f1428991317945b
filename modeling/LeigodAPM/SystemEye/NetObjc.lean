import LeigodAPM.Foundation.Bounds
import LeigodAPM.Foundation.Loops

/-!
# The interface list of `NetObjc`

`+[NetObjc flow]` walks the interface list of `getifaddrs` and adds up the byte counters
of the link-layer entries of the interfaces "en0" and "pdp_ip0". The sums wrap modulo
`2 ^ 32`, and a failed `getifaddrs` leaves all four of them zero. The walks
`+[NetObjc wifiIPAddress]` and `+[NetObjc cellIPAddress]` look for the internet address of
one of the two interfaces.

The C code reads through pointers that may be null and hands the list to `freeifaddrs`;
`Walk` keeps track of both. Every value of the four totals is the result of some walk
(`exists_flow`).
-/

namespace LeigodAPM

/-- The totals of one sample. -/
structure NetModel where
  wifiSend : UInt32
  wifiReceived : UInt32
  wwanSend : UInt32
  wwanReceived : UInt32
  deriving DecidableEq

/-- The counters of a `NetModel` by name. -/
inductive NetCounter
  | wifiSend
  | wifiReceived
  | wwanSend
  | wwanReceived
  deriving DecidableEq

namespace NetModel

def get (m : NetModel) : NetCounter → UInt32
  | .wifiSend => m.wifiSend
  | .wifiReceived => m.wifiReceived
  | .wwanSend => m.wwanSend
  | .wwanReceived => m.wwanReceived

@[ext] theorem ext_get {m m' : NetModel} (h : ∀ c, m.get c = m'.get c) : m = m' := by
  have h1 := h .wifiSend
  have h2 := h .wifiReceived
  have h3 := h .wwanSend
  have h4 := h .wwanReceived
  cases m
  cases m'
  simp_all [get]

/-- The model of `[[NetModel alloc] init]`. -/
def zero : NetModel := ⟨0, 0, 0, 0⟩

@[simp] theorem zero_get (c : NetCounter) : zero.get c = 0 := by
  cases c <;> rfl

/-- Componentwise order. -/
instance : LE NetModel := ⟨fun m m' => ∀ c, m.get c ≤ m'.get c⟩

end NetModel

/-! ## The interface list -/

structure Sockaddr where
  sa_family : UInt8
  /-- The IPv4 address of an `AF_INET` socket address. -/
  sin_addr : UInt32

structure IfData where
  ifi_ibytes : UInt32
  ifi_obytes : UInt32

/-- An entry of the list of `getifaddrs`, whose contract allows null addresses and data. -/
structure Ifaddrs where
  ifa_name : String
  ifa_addr : Option Sockaddr
  ifa_data : Option IfData

def AF_INET : UInt8 := 2
def AF_LINK : UInt8 := 18

/-- A read through a null pointer, or the use of a pointer that was never set. -/
inductive Fault
  | nullPointer
  | unsetPointer
  deriving DecidableEq

/-- C code that may fault, with the lists it has given to `freeifaddrs`. -/
abbrev Walk := StateT (List (List Ifaddrs)) (Except Fault)

def deref {α : Type} : Option α → Walk α
  | some a => pure a
  | none => throw .nullPointer

def freeifaddrs (addrs : List Ifaddrs) : Walk Unit := modify fun freed => freed ++ [addrs]

/-- The out-pointer of `getifaddrs`, which a failed call does not set. -/
def outPointer : Option (List Ifaddrs) → Walk (List Ifaddrs)
  | some addrs => pure addrs
  | none => throw .unsetPointer

namespace NetObjc

/-- The body of the loop of `+[NetObjc flow]`. -/
def flowEntry (result : NetModel) (cursor : Ifaddrs) : Walk NetModel := do
  let addr ← deref cursor.ifa_addr
  if addr.sa_family = AF_LINK then
    let result ← if cursor.ifa_name = "en0" then do
        let networkStatisc ← deref cursor.ifa_data
        pure { result with
          wifiSend := result.wifiSend + networkStatisc.ifi_obytes
          wifiReceived := result.wifiReceived + networkStatisc.ifi_ibytes }
      else pure result
    if cursor.ifa_name = "pdp_ip0" then do
      let networkStatisc ← deref cursor.ifa_data
      pure { result with
        wwanSend := result.wwanSend + networkStatisc.ifi_obytes
        wwanReceived := result.wwanReceived + networkStatisc.ifi_ibytes }
    else pure result
  else pure result

/-- `+[NetObjc flow]`, given the list of `getifaddrs`, or `none` when that call fails. -/
def flow (getifaddrs : Option (List Ifaddrs)) : Walk NetModel :=
  match getifaddrs with
  | some addrs => do
    let result ← addrs.foldlM flowEntry .zero
    freeifaddrs addrs
    pure result
  | none => pure .zero

/-- The body of the loop of the two address walks: `text` of the address of an internet entry
of the interface `name`. -/
def addressEntry (name : String) (text : UInt32 → Option String) (result : Option String)
    (temp : Ifaddrs) : Walk (Option String) := do
  let addr ← deref temp.ifa_addr
  if addr.sa_family = AF_INET then
    if temp.ifa_name = name then pure (text addr.sin_addr) else pure result
  else pure result

/-- What the two address walks share. The list is freed after the branch of the successful
call, where its pointer may not be set. -/
def ipAddress (name : String) (text : UInt32 → Option String)
    (getifaddrs : Option (List Ifaddrs)) : Walk (Option String) := do
  let result ← match getifaddrs with
    | some interfaces => interfaces.foldlM (addressEntry name text) none
    | none => pure none
  let interfaces ← outPointer getifaddrs
  freeifaddrs interfaces
  pure result

/-- `+[NetObjc wifiIPAddress]`; `inet_ntoa` never returns null. -/
def wifiIPAddress (inet_ntoa : UInt32 → String) (getifaddrs : Option (List Ifaddrs)) :
    Walk (Option String) := ipAddress "en0" (fun addr => some (inet_ntoa addr)) getifaddrs

/-- `+[NetObjc cellIPAddress]`; a null of `inet_ntop` and an empty text are no address. -/
def cellIPAddress (inet_ntop : UInt32 → Option String) (getifaddrs : Option (List Ifaddrs)) :
    Walk (Option String) := do
  match ← ipAddress "pdp_ip0" inet_ntop getifaddrs with
  | none => pure none
  | some address => if address.length ≤ 0 then pure none else pure (some address)

/-- The interface list with the given totals: one link-layer entry for each interface. -/
def listOf (m : NetModel) : List Ifaddrs :=
  [⟨"en0", some ⟨AF_LINK, 0⟩, some ⟨m.wifiReceived, m.wifiSend⟩⟩,
    ⟨"pdp_ip0", some ⟨AF_LINK, 0⟩, some ⟨m.wwanReceived, m.wwanSend⟩⟩]

/-- What a link-layer entry with link data adds. -/
theorem flowEntry_link (result : NetModel) (name : String) (sin : UInt32) (data : IfData)
    (freed : List (List Ifaddrs)) :
    flowEntry result ⟨name, some ⟨AF_LINK, sin⟩, some data⟩ freed =
      .ok (if name = "en0" then
          { result with
            wifiSend := result.wifiSend + data.ifi_obytes
            wifiReceived := result.wifiReceived + data.ifi_ibytes }
        else if name = "pdp_ip0" then
          { result with
            wwanSend := result.wwanSend + data.ifi_obytes
            wwanReceived := result.wwanReceived + data.ifi_ibytes }
        else result, freed) := by
  by_cases hWifi : name = "en0"
  · subst hWifi
    rfl
  · by_cases hWwan : name = "pdp_ip0"
    · subst hWwan
      rfl
    · simp only [flowEntry, deref, pure_bind, if_true, hWifi, hWwan, if_false]
      rfl

/-- Every value of the four totals is a sample the kernel can give. -/
theorem exists_flow (m : NetModel) : flow (some (listOf m)) [] = .ok (m, [listOf m]) := by
  have hWalk : (listOf m).foldlM flowEntry .zero [] = .ok (m, []) := by
    simp only [listOf, Foundation.foldlM_cons_apply, flowEntry_link, Except.bind]
    simp only [NetModel.zero, if_true, UInt32.zero_add]
    rfl
  simp only [flow, bind, StateT.bind, hWalk]
  rfl

end NetObjc

end LeigodAPM
