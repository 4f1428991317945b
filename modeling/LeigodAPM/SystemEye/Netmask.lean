import LeigodAPM.Foundation.Handles
import LeigodAPM.Foundation.Run
import Mathlib.Data.UInt

/-!
# Netmasks

`wifiNetmaskAddress` and `cellNetmaskAddress` open a socket to ask the kernel for the netmask of
an interface, and close it on every path. Any number of threads can be inside these methods, and
the rest of the process opens and closes descriptors of its own. The address is converted by
`inet_ntoa`, which returns a pointer to one buffer for the whole process.

* `netmasks_of_run`: in every interleaving each open descriptor has one holder, so that no call
  closes a descriptor of somebody else and none is left open, and a call returns its own netmask
  when no other call has converted an address between its own conversion and its copy.
-/

namespace LeigodAPM

open Foundation Machine Function

namespace NetObjc

/-- Where a thread is in the method, with the local variables that it still needs. -/
inductive NetmaskPc
  | outside (result : Option (Option String))
  | called (ifr_name : List Char)
  | opened (ifr_name : List Char) (afd : ℕ)
  | failed (afd : ℕ)
  | answered (sin_addr : UInt32) (afd : ℕ)
  | closed (sin_addr : UInt32)
  | converted (sin_addr : UInt32)

/-- The descriptor that the method has to close. -/
def NetmaskPc.afd : NetmaskPc → Option ℕ
  | .opened _ afd => some afd
  | .failed afd => some afd
  | .answered _ afd => some afd
  | _ => none

structure Sockets where
  table : ℕ → Bool
  /-- The descriptors of the rest of the process. -/
  others : ℕ → Bool
  callers : ℕ → NetmaskPc
  /-- The static buffer of `inet_ntoa`. -/
  buffer : String

/-- A step of a thread, with what the kernel replies, or one of the rest of the process. -/
inductive SocketEvent
  | wifiNetmaskAddress (t : ℕ)
  | cellNetmaskAddress (t : ℕ)
  | socket (t : ℕ) (reply : Option ℕ)
  | ioctl (t : ℕ) (netmask : List Char → Option UInt32)
  | close (t : ℕ)
  | inet_ntoa (t : ℕ)
  | stringWithUTF8String (t : ℕ)
  | openOther (fd : ℕ)
  | closeOther (fd : ℕ)
  | inet_ntoaOther (sin_addr : UInt32)

namespace Sockets

def start : Sockets := ⟨fun _ => false, fun _ => false, fun _ => .outside none, ""⟩

def goto (s : Sockets) (t : ℕ) (pc : NetmaskPc) : Sockets :=
  { s with callers := update s.callers t pc }

/-- `strncpy` into `ifr_name`, `IFNAMSIZ - 1` characters at most. -/
def enter (s : Sockets) (t : ℕ) (name : String) : Option Sockets :=
  match s.callers t with
  | .outside _ => some (s.goto t (.called (name.toList.take 15)))
  | _ => none

/-- All interleavings; `none` where a thread is not at that step. The kernel opens only a
descriptor that is not open, and the rest of the process closes only its own. -/
def step (inet_ntoa : UInt32 → String) : Machine Sockets SocketEvent
  | s, .wifiNetmaskAddress t => s.enter t "en0"
  | s, .cellNetmaskAddress t => s.enter t "pdp_ip0"
  | s, .socket t reply =>
    match s.callers t, reply with
    | .called _, none => some (s.goto t (.outside (some none)))
    | .called ifr_name, some afd =>
      if s.table afd = true then none
      else some { s.goto t (.opened ifr_name afd) with table := update s.table afd true }
    | _, _ => none
  | s, .ioctl t netmask =>
    match s.callers t with
    | .opened ifr_name afd =>
      match netmask ifr_name with
      | none => some (s.goto t (.failed afd))
      | some sin_addr => some (s.goto t (.answered sin_addr afd))
    | _ => none
  | s, .close t =>
    match s.callers t with
    | .failed afd =>
      some { s.goto t (.outside (some none)) with table := update s.table afd false }
    | .answered sin_addr afd =>
      some { s.goto t (.closed sin_addr) with table := update s.table afd false }
    | _ => none
  | s, .inet_ntoa t =>
    match s.callers t with
    | .closed sin_addr => some { s.goto t (.converted sin_addr) with buffer := inet_ntoa sin_addr }
    | _ => none
  | s, .stringWithUTF8String t =>
    match s.callers t with
    | .converted _ => some (s.goto t (.outside (some (some s.buffer))))
    | _ => none
  | s, .openOther fd =>
    if s.table fd = true then none
    else some { s with table := update s.table fd true, others := update s.others fd true }
  | s, .closeOther fd =>
    if s.others fd = true then
      some { s with table := update s.table fd false, others := update s.others fd false }
    else none
  | s, .inet_ntoaOther sin_addr => some { s with buffer := inet_ntoa sin_addr }

/-- Who holds a descriptor: a thread, or the rest of the process. -/
def holds (s : Sockets) : Option ℕ → ℕ → Prop
  | none, fd => s.others fd = true
  | some t, fd => (s.callers t).afd = some fd

/-- Every open descriptor has one holder, and when no thread is at work all are of the rest. -/
structure DescriptorsSafe (s : Sockets) : Prop where
  exclusive : Exclusive s.table s.holds
  quiet : (∀ t, (s.callers t).afd = none) → s.table = s.others

/-- An address is converted, by a thread or elsewhere. -/
def Converts (e : SocketEvent) : Prop :=
  (∃ t, e = .inet_ntoa t) ∨ ∃ sin_addr, e = .inet_ntoaOther sin_addr

/-- A thread that copies the buffer after its own conversion returns its own address. -/
def CopiesOwn (inet_ntoa : UInt32 → String) (h : List SocketEvent) (s : Sockets)
    (e : SocketEvent) : Prop :=
  ∀ t sin_addr, e = .stringWithUTF8String t → s.callers t = .converted sin_addr →
    Since (· = .inet_ntoa t) Converts h →
    step inet_ntoa s e = some (s.goto t (.outside (some (some (inet_ntoa sin_addr)))))

/-! ## Holders -/

section Holders

variable {inet_ntoa : UInt32 → String} {s s' : Sockets} {e : SocketEvent} {t : ℕ} {pc : NetmaskPc}
  {i : ℕ}

theorem holds_goto (s : Sockets) (t : ℕ) (pc : NetmaskPc) (o : Option ℕ) (j : ℕ) :
    (s.goto t pc).holds o j ↔ if o = some t then pc.afd = some j else s.holds o j := by
  cases o with
  | none => exact Iff.rfl
  | some u =>
    by_cases hEq : u = t
    · subst hEq
      simp [holds, goto]
    · simp [holds, goto, hEq]

theorem holds_goto_same (hSame : pc.afd = (s.callers t).afd) (o : Option ℕ) (j : ℕ) :
    (s.goto t pc).holds o j ↔ s.holds o j := by
  rw [holds_goto]
  split_ifs with hEq
  · rw [hEq, hSame]
    exact Iff.rfl
  · exact Iff.rfl

theorem holds_goto_acquire (hNone : (s.callers t).afd = none) (hpc : pc.afd = some i)
    (o : Option ℕ) (j : ℕ) :
    (s.goto t pc).holds o j ↔ s.holds o j ∨ (o = some t ∧ j = i) := by
  rw [holds_goto]
  split_ifs with hEq
  · rw [hEq, hpc, holds, hNone]
    simp [eq_comm]
  · simp [hEq]

theorem holds_goto_release (hSome : (s.callers t).afd = some i) (hpc : pc.afd = none)
    (o : Option ℕ) (j : ℕ) :
    (s.goto t pc).holds o j ↔ s.holds o j ∧ ¬ (o = some t ∧ j = i) := by
  rw [holds_goto]
  split_ifs with hEq
  · rw [hEq, hpc, holds, hSome]
    simp [eq_comm]
  · simp [hEq]

end Holders

/-! ## Steps -/

/-- What a step does: a thread goes on, opens or closes its descriptor, or converts its address,
or the rest of the process does one of these. -/
inductive Outcome (inet_ntoa : UInt32 → String) (s : Sockets) : SocketEvent → Sockets → Prop
  | goes {e : SocketEvent} (t : ℕ) (pc : NetmaskPc) (same : pc.afd = (s.callers t).afd)
      (fresh : ∀ a, pc ≠ .converted a) (quiet : ¬ Converts e) : Outcome inet_ntoa s e (s.goto t pc)
  | opens {e : SocketEvent} (t i : ℕ) (pc : NetmaskPc) (before : (s.callers t).afd = none)
      (after : pc.afd = some i) (closed : s.table i = false) (fresh : ∀ a, pc ≠ .converted a)
      (quiet : ¬ Converts e) :
      Outcome inet_ntoa s e { s.goto t pc with table := update s.table i true }
  | closes {e : SocketEvent} (t i : ℕ) (pc : NetmaskPc) (before : (s.callers t).afd = some i)
      (after : pc.afd = none) (fresh : ∀ a, pc ≠ .converted a) (quiet : ¬ Converts e) :
      Outcome inet_ntoa s e { s.goto t pc with table := update s.table i false }
  | converts (t : ℕ) (a : UInt32) (before : s.callers t = .closed a) :
      Outcome inet_ntoa s (.inet_ntoa t)
        { s.goto t (.converted a) with buffer := inet_ntoa a }
  | openOther (fd : ℕ) (closed : s.table fd = false) : Outcome inet_ntoa s (.openOther fd)
      { s with table := update s.table fd true, others := update s.others fd true }
  | closeOther (fd : ℕ) (own : s.others fd = true) : Outcome inet_ntoa s (.closeOther fd)
      { s with table := update s.table fd false, others := update s.others fd false }
  | convertsOther (a : UInt32) :
      Outcome inet_ntoa s (.inet_ntoaOther a) { s with buffer := inet_ntoa a }

section Steps

variable {inet_ntoa : UInt32 → String} {h : List SocketEvent} {s s' : Sockets} {e : SocketEvent}
  {t : ℕ}

theorem enter_outcome {name : String} (hEnter : s.enter t name = some s') (hQuiet : ¬ Converts e) :
    Outcome inet_ntoa s e s' := by
  cases hPc : s.callers t with
  | outside result =>
    simp only [enter, hPc] at hEnter
    obtain rfl := Option.some.inj hEnter
    exact .goes t _ (by rw [hPc]; rfl) (by simp) hQuiet
  | _ =>
    simp only [enter, hPc] at hEnter
    cases hEnter

theorem step_outcome (hStep : step inet_ntoa s e = some s') : Outcome inet_ntoa s e s' := by
  cases e with
  | wifiNetmaskAddress t => exact enter_outcome hStep (by simp [Converts])
  | cellNetmaskAddress t => exact enter_outcome hStep (by simp [Converts])
  | socket t reply =>
    cases hPc : s.callers t with
    | called ifr_name =>
      cases reply with
      | none =>
        simp only [step, hPc] at hStep
        obtain rfl := Option.some.inj hStep
        exact .goes t _ (by rw [hPc]; rfl) (by simp) (by simp [Converts])
      | some afd =>
        simp only [step, hPc] at hStep
        split_ifs at hStep with hOpen
        obtain rfl := Option.some.inj hStep
        exact .opens t afd _ (by rw [hPc]; rfl) rfl (Bool.eq_false_of_not_eq_true hOpen)
          (by simp) (by simp [Converts])
    | _ =>
      simp only [step, hPc] at hStep
      cases hStep
  | ioctl t netmask =>
    cases hPc : s.callers t with
    | opened ifr_name afd =>
      simp only [step, hPc] at hStep
      cases hReply : netmask ifr_name with
      | none =>
        rw [hReply] at hStep
        obtain rfl := Option.some.inj hStep
        exact .goes t _ (by rw [hPc]; rfl) (by simp) (by simp [Converts])
      | some sin_addr =>
        rw [hReply] at hStep
        obtain rfl := Option.some.inj hStep
        exact .goes t _ (by rw [hPc]; rfl) (by simp) (by simp [Converts])
    | _ =>
      simp only [step, hPc] at hStep
      cases hStep
  | close t =>
    cases hPc : s.callers t with
    | failed afd =>
      simp only [step, hPc] at hStep
      obtain rfl := Option.some.inj hStep
      exact .closes t afd _ (by rw [hPc]; rfl) rfl (by simp) (by simp [Converts])
    | answered sin_addr afd =>
      simp only [step, hPc] at hStep
      obtain rfl := Option.some.inj hStep
      exact .closes t afd _ (by rw [hPc]; rfl) rfl (by simp) (by simp [Converts])
    | _ =>
      simp only [step, hPc] at hStep
      cases hStep
  | inet_ntoa t =>
    cases hPc : s.callers t with
    | closed sin_addr =>
      simp only [step, hPc] at hStep
      obtain rfl := Option.some.inj hStep
      exact .converts t sin_addr hPc
    | _ =>
      simp only [step, hPc] at hStep
      cases hStep
  | stringWithUTF8String t =>
    cases hPc : s.callers t with
    | converted sin_addr =>
      simp only [step, hPc] at hStep
      obtain rfl := Option.some.inj hStep
      exact .goes t _ (by rw [hPc]; rfl) (by simp) (by simp [Converts])
    | _ =>
      simp only [step, hPc] at hStep
      cases hStep
  | openOther fd =>
    simp only [step] at hStep
    split_ifs at hStep with hOpen
    obtain rfl := Option.some.inj hStep
    exact .openOther fd (Bool.eq_false_of_not_eq_true hOpen)
  | closeOther fd =>
    simp only [step] at hStep
    split_ifs at hStep with hOwn
    obtain rfl := Option.some.inj hStep
    exact .closeOther fd hOwn
  | inet_ntoaOther sin_addr =>
    obtain rfl := Option.some.inj hStep
    exact .convertsOther sin_addr

theorem exclusive_step (hSafe : Exclusive s.table s.holds)
    (hStep : step inet_ntoa s e = some s') : Exclusive s'.table s'.holds := by
  cases step_outcome hStep with
  | goes t pc hSame => exact hSafe.congr (holds_goto_same hSame)
  | opens t i pc hBefore hAfter hClosed =>
    exact hSafe.acquire hClosed (holds_goto_acquire hBefore hAfter)
  | closes t i pc hBefore hAfter =>
    exact hSafe.release (a := some t) hBefore (holds_goto_release hBefore hAfter)
  | converts t a hBefore =>
    have hSame : NetmaskPc.afd (.converted a) = (s.callers t).afd := by
      rw [hBefore]
      rfl
    exact hSafe.congr (holds_goto_same hSame)
  | openOther fd hClosed =>
    refine hSafe.acquire (a := none) hClosed fun o j => ?_
    cases o with
    | none => by_cases hEq : j = fd <;> simp [holds, hEq]
    | some u => simp [holds]
  | closeOther fd hOwn =>
    refine hSafe.release (a := none) hOwn fun o j => ?_
    cases o with
    | none => by_cases hEq : j = fd <;> simp [holds, hEq]
    | some u => simp [holds]
  | convertsOther a => exact hSafe

/-- After its conversion a thread finds its own address, until another one is converted. -/
def BufferOwn (inet_ntoa : UInt32 → String) (h : List SocketEvent) (s : Sockets) : Prop :=
  ∀ t a, s.callers t = .converted a → Since (· = .inet_ntoa t) Converts h →
    s.buffer = inet_ntoa a

/-- No thread gets behind a conversion. -/
theorem converted_goto {pc : NetmaskPc} (hFresh : ∀ a, pc ≠ .converted a) {u : ℕ} {a : UInt32}
    (hu : (s.goto t pc).callers u = .converted a) : s.callers u = .converted a := by
  by_cases hEq : u = t
  · subst hEq
    have hSelf : (s.goto u pc).callers u = pc := by simp [goto]
    exact absurd (hSelf.symm.trans hu) (hFresh a)
  · have hOther : (s.goto t pc).callers u = s.callers u := by simp [goto, hEq]
    exact hOther.symm.trans hu

theorem bufferOwn_quiet (hOwn : BufferOwn inet_ntoa h s) (hQuiet : ¬ Converts e)
    (hBuffer : s'.buffer = s.buffer)
    (hConverted : ∀ u a, s'.callers u = .converted a → s.callers u = .converted a) :
    BufferOwn inet_ntoa (h ++ [e]) s' := by
  intro u a hu hSince
  rcases since_concat.mp hSince with hEq | ⟨hBefore, -⟩
  · exact absurd (Or.inl ⟨u, hEq⟩) hQuiet
  · rw [hBuffer]
    exact hOwn u a (hConverted u a hu) hBefore

theorem bufferOwn_step (hOwn : BufferOwn inet_ntoa h s) (hStep : step inet_ntoa s e = some s') :
    BufferOwn inet_ntoa (h ++ [e]) s' := by
  cases step_outcome hStep with
  | goes t pc hSame hFresh hQuiet =>
    exact bufferOwn_quiet hOwn hQuiet rfl fun u a => converted_goto hFresh
  | opens t i pc hBefore hAfter hClosed hFresh hQuiet =>
    exact bufferOwn_quiet hOwn hQuiet rfl fun u a => converted_goto hFresh
  | closes t i pc hBefore hAfter hFresh hQuiet =>
    exact bufferOwn_quiet hOwn hQuiet rfl fun u a => converted_goto hFresh
  | converts t a hBefore =>
    intro u b hu hSince
    rcases since_concat.mp hSince with hEq | ⟨-, hNot⟩
    · obtain rfl := SocketEvent.inet_ntoa.inj hEq
      have hSelf : (s.goto t (.converted a)).callers t = .converted a :=
        update_self t _ s.callers
      obtain rfl := NetmaskPc.converted.inj (hSelf.symm.trans hu)
      rfl
    · exact absurd (Or.inl ⟨t, rfl⟩) hNot
  | openOther fd hClosed =>
    exact bufferOwn_quiet hOwn (by simp [Converts]) rfl fun u a hu => hu
  | closeOther fd hOther =>
    exact bufferOwn_quiet hOwn (by simp [Converts]) rfl fun u a hu => hu
  | convertsOther a =>
    intro u b hu hSince
    rcases since_concat.mp hSince with hEq | ⟨-, hNot⟩
    · cases hEq
    · exact absurd (Or.inr ⟨a, rfl⟩) hNot

/-! ## Runs -/

/-- When no thread is at work, the open descriptors are those of the rest of the process. -/
theorem table_eq_others (hSafe : Exclusive s.table s.holds)
    (hQuiet : ∀ t, (s.callers t).afd = none) : s.table = s.others := by
  funext i
  rw [Bool.eq_iff_iff, hSafe.held]
  constructor
  · rintro ⟨o, ho⟩
    cases o with
    | none => exact ho
    | some t =>
      have hAfd : (s.callers t).afd = some i := ho
      rw [hQuiet t] at hAfd
      cases hAfd
  · exact fun hOther => ⟨none, hOther⟩

/-- **Netmasks.** In every interleaving each open descriptor has one holder, and a thread that
copies the buffer before the next conversion returns its own netmask. -/
theorem netmasks_of_run (inet_ntoa : UInt32 → String) (events : List SocketEvent) :
    (step inet_ntoa).Always (fun _ s => DescriptorsSafe s) start events ∧
      (step inet_ntoa).EachStep (CopiesOwn inet_ntoa) start events := by
  have hAlways : (step inet_ntoa).Always
      (fun h s => Exclusive s.table s.holds ∧ BufferOwn inet_ntoa h s) start events := by
    refine always_of_step ⟨?_, ?_⟩ ?_
    · refine ⟨fun i => iff_of_false (by simp [start]) ?_, ?_⟩
      · rintro ⟨o, ho⟩
        cases o with
        | none => cases ho
        | some t => cases ho
      · intro o o' i ho
        cases o with
        | none => cases ho
        | some t => cases ho
    · intro t a hConverted
      cases hConverted
    · rintro h s e s' ⟨hSafe, hOwn⟩ hStep
      exact ⟨exclusive_step hSafe hStep, bufferOwn_step hOwn hStep⟩
  constructor
  · exact hAlways.mono fun h s hInv => ⟨hInv.1, table_eq_others hInv.1⟩
  · rintro h e s s' hh hRun - t a rfl hConverted hSince
    have hInv := hAlways h s ((List.prefix_append h _).trans hh) hRun
    rw [← hInv.2 t a hConverted hSince]
    simp only [step, hConverted]

end Steps

end Sockets

end NetObjc

end LeigodAPM
