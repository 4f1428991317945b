import LeigodAPM.SystemEye.FrameWindows

/-!
# A steady display

`lastTime` starts at zero, the time of the boot, and nothing moves it when the link is
paused. The first window therefore reaches back to the boot and a window that contains a
pause counts the pause, so the frames of these windows are divided by more time than they
took.

* `cutDelays_pause`: the windows from one pause to the next, in closed form.
* `steady_reports_iff`: the exact condition on the pauses, the start of the monitor among
  them, under which every report of a steady display is its rate.
-/

namespace LeigodAPM

open Foundation Machine

namespace FPS

/-- While the link is not paused it fires once per period, with a `frameInterval` of 1. -/
structure Steady (period : ℚ) (l : List Tick) : Prop where
  frames : ∀ t ∈ l, t.frames = 1
  period : l.IsChain fun t t' => t'.resumed = false → t'.time = t.time + period

/-- The time of a window that is not part of a period of its ticks. -/
def idle (period : ℚ) (w : Window ℚ Tick) : ℚ := w.stop - w.start - w.items.length * period

/-- The rate of a display, as a whole number. -/
def rate (period : ℚ) : ℤ := ⌊1 / period + 1 / 2⌋

/-- A delay of `late` on top of `n` periods leaves the rounded rate as it is. It is negative when
the first tick after a pause comes early. -/
def Absorbed (period : ℚ) (n : ℕ) (late : ℚ) : Prop :=
  n * (1 / (rate period + 1 / 2) - period) < late ∧
    (rate period ≠ 0 → late ≤ n * (1 / (rate period - 1 / 2) - period))

/-- A pause, or the time from the boot to the start of the monitor. -/
structure Pause where
  /-- How much later than one period after the tick before the pause the next one comes. -/
  late : ℚ
  /-- The ticks behind that one, up to the next pause. -/
  more : ℕ
  deriving DecidableEq

/-- The ticks before the first pause, and the pauses. -/
def stretches (period : ℚ) : ℚ → List Tick → ℕ × List Pause
  | _, [] => (0, [])
  | last, t :: ticks =>
    let (n, pauses) := stretches period t.time ticks
    if t.resumed = true then (0, ⟨t.time - last - period, n⟩ :: pauses) else (n + 1, pauses)

def pauses (period : ℚ) (events : List DisplayEvent) : List Pause :=
  (stretches period 0 (fired events)).2

/-- The pauses change no rate that is reported every `width` at least: `n` ticks and a delay of
`late` have gone by since the last report. -/
def Spared (width period : ℚ) : ℕ → ℚ → List Pause → Prop
  | _, _, [] => True
  | n, late, pause :: rest =>
    let total := late + pause.late
    -- The ticks that there are when the time since the last report reaches `width`.
    let m := max (n + 1) ⌈(width - total) / period⌉₊
    if n + 1 + pause.more < m then Spared width period (n + 1 + pause.more) total rest
    else Absorbed period m total ∧
      Spared width period ((n + 1 + pause.more - m) % ⌈width / period⌉₊) 0 rest

/-! ## The delays of the ticks -/

section Delays

variable {p u : ℚ}

/-- How much later than one period after the one before each tick comes. -/
def delays (period : ℚ) : ℚ → List Tick → List ℚ
  | _, [] => []
  | last, t :: ticks => (t.time - last - period) :: delays period t.time ticks

def Pause.delays (pause : Pause) : List ℚ := pause.late :: List.replicate pause.more 0

theorem stretches_of_resumed {last : ℚ} {t : Tick} {l : List Tick} (hResumed : t.resumed = true) :
    stretches p last (t :: l) =
      (0, ⟨t.time - last - p, (stretches p t.time l).1⟩ :: (stretches p t.time l).2) :=
  if_pos hResumed

theorem stretches_of_not_resumed {last : ℚ} {t : Tick} {l : List Tick}
    (hResumed : t.resumed = false) :
    stretches p last (t :: l) = ((stretches p t.time l).1 + 1, (stretches p t.time l).2) :=
  if_neg (ne_true_of_eq_false hResumed)

/-- The first tick of a run finds a link that has just been resumed. -/
theorem resumed_of_head (paused : Bool) (events : List DisplayEvent) :
    ∀ t ∈ (ticks paused true events).head?, t.resumed = true := by
  induction events generalizing paused with
  | nil => nofun
  | cons e events ih =>
    cases e with
    | «open» => exact ih false
    | close => exact ih true
    | post n => exact ih false
    | tick timestamp frameInterval =>
      cases paused with
      | true => exact ih true
      | false =>
        intro t ht
        obtain rfl := Option.some.inj ht
        rfl

/-- A steady display is late after a pause only. -/
theorem delays_eq {last : ℚ} {l : List Tick}
    (hFirst : ∀ t ∈ l.head?, t.resumed = false → t.time = last + p)
    (hPeriod : l.IsChain fun t t' => t'.resumed = false → t'.time = t.time + p) :
    delays p last l = List.replicate (stretches p last l).1 0 ++
      (stretches p last l).2.flatMap Pause.delays := by
  induction l generalizing last with
  | nil => rfl
  | cons t l ih =>
    have hRest := ih (fun t' ht' => (List.isChain_cons.mp hPeriod).1 t' ht')
      (List.isChain_cons.mp hPeriod).2
    cases hResumed : t.resumed with
    | true => rw [delays, hRest, stretches_of_resumed hResumed]; rfl
    | false =>
      have hTime := hFirst t rfl hResumed
      have hZero : t.time - last - p = 0 := by linarith
      rw [delays, hRest, stretches_of_not_resumed hResumed, hZero, List.replicate_succ]
      rfl

theorem delays_fired {events : List DisplayEvent} (hSteady : Steady p (fired events)) :
    delays p 0 (fired events) = (pauses p events).flatMap Pause.delays := by
  have hHead := resumed_of_head true events
  have hNone : (stretches p 0 (fired events)).1 = 0 := by
    cases hFired : fired events with
    | nil => rfl
    | cons t l =>
      have hResumed : t.resumed = true := hHead t (by
        rw [show ticks true true events = fired events from rfl, hFired]
        rfl)
      rw [stretches_of_resumed hResumed]
  have hFirst : ∀ t ∈ (fired events).head?, t.resumed = false → t.time = 0 + p :=
    fun t ht hNot => absurd ((hHead t ht).symm.trans hNot) nofun
  have hDelays := delays_eq hFirst hSteady.period
  rw [hNone] at hDelays
  exact hDelays

end Delays

/-! ## The windows of the delays -/

/-- The ticks and the delay of each window, behind `n` ticks and a delay of `late`. -/
def cutDelays (u p : ℚ) : ℕ → ℚ → List ℚ → List (ℕ × ℚ)
  | _, _, [] => []
  | n, late, d :: ds =>
    if u ≤ (n + 1 : ℕ) * p + (late + d) then (n + 1, late + d) :: cutDelays u p 0 0 ds
    else cutDelays u p (n + 1) (late + d) ds

section Windows

variable {p u : ℚ}

/-- The windows of the ticks are those of their delays. -/
theorem windows_eq_cutDelays {c : Cutter ℚ Tick} {last late : ℚ} {n : ℕ} (l : List Tick)
    (hCount : c.pending.length = n) (hLate : last - c.start = n * p + late) :
    (c.cutAll (fun t => t.time) u l).windows.map (fun w => (w.items.length, idle p w)) =
      c.windows.map (fun w => (w.items.length, idle p w)) ++
        cutDelays u p n late (delays p last l) := by
  induction l generalizing c last late n with
  | nil => simp [Cutter.cutAll, delays, cutDelays]
  | cons t l ih =>
    have hTime : t.time - c.start = (n + 1 : ℕ) * p + (late + (t.time - last - p)) := by
      push_cast
      linarith
    rw [Cutter.cutAll, List.foldl_cons, ← Cutter.cutAll, delays, cutDelays]
    by_cases hWide : u ≤ t.time - c.start
    · have hCut := @ih (c.cut (fun t => t.time) u t) t.time 0 0
        (by rw [Cutter.cut_of_le hWide]; rfl) (by rw [Cutter.cut_of_le hWide]; simp)
      rw [hCut, Cutter.cut_of_le hWide, if_pos (hTime ▸ hWide), List.map_append, List.append_assoc]
      have hIdle : idle p ⟨c.start, t.time, c.pending ++ [t]⟩ = late + (t.time - last - p) := by
        rw [idle, hTime, List.length_append, hCount, List.length_singleton]
        ring
      simp only [List.map_cons, List.map_nil, List.length_append, hCount, List.length_singleton,
        hIdle, List.singleton_append]
    · have hCut := @ih (c.cut (fun t => t.time) u t) t.time (late + (t.time - last - p)) (n + 1)
        (by rw [Cutter.cut_of_not_le hWide]; simp [hCount])
        (by rw [Cutter.cut_of_not_le hWide]; exact hTime)
      rw [hCut, Cutter.cut_of_not_le hWide, if_neg (hTime ▸ hWide)]

/-- The window is full when there are as many ticks as its delay leaves room for. -/
theorem full_iff (hp : 0 < p) (late : ℚ) (n : ℕ) :
    u ≤ n * p + late ↔ ⌈(u - late) / p⌉₊ ≤ n := by
  rw [Nat.ceil_le, div_le_iff₀ hp, sub_le_iff_le_add]

/-- Ticks on time fill the window, if there are enough of them. -/
theorem cutDelays_replicate (hp : 0 < p) (late : ℚ) {n : ℕ} (hn : n < ⌈(u - late) / p⌉₊) (k : ℕ)
    (ds : List ℚ) : cutDelays u p n late (List.replicate k 0 ++ ds) =
      if n + k < ⌈(u - late) / p⌉₊ then cutDelays u p (n + k) late ds
      else (⌈(u - late) / p⌉₊, late) ::
        cutDelays u p 0 0 (List.replicate (n + k - ⌈(u - late) / p⌉₊) 0 ++ ds) := by
  induction k generalizing n with
  | zero => rw [if_pos (by omega), List.replicate_zero, List.nil_append, Nat.add_zero]
  | succ k ih =>
    rw [List.replicate_succ, List.cons_append, cutDelays, add_zero]
    by_cases hFull : ⌈(u - late) / p⌉₊ ≤ n + 1
    · have hEq : ⌈(u - late) / p⌉₊ = n + 1 := le_antisymm hFull hn
      rw [if_pos ((full_iff hp late (n + 1)).mpr hFull), if_neg (by omega), hEq]
      congr 4
      omega
    · rw [if_neg fun h => hFull ((full_iff hp late (n + 1)).mp h), ih (not_le.mp hFull)]
      have hSum : n + 1 + k = n + (k + 1) := by omega
      rw [hSum]

/-- Ticks on time make windows of the same number of ticks. -/
theorem cutDelays_whole (hu : 0 < u) (hp : 0 < p) (k : ℕ) (ds : List ℚ) :
    cutDelays u p 0 0 (List.replicate k 0 ++ ds) =
      List.replicate (k / ⌈u / p⌉₊) (⌈u / p⌉₊, 0) ++ cutDelays u p (k % ⌈u / p⌉₊) 0 ds := by
  have hPos : 0 < ⌈u / p⌉₊ := Nat.ceil_pos.mpr (div_pos hu hp)
  induction k using Nat.strongRecOn with
  | ind k ih =>
    have hCut := cutDelays_replicate (u := u) hp 0 (n := 0) (by rwa [sub_zero]) k ds
    rw [hCut, sub_zero, Nat.zero_add]
    by_cases hFew : k < ⌈u / p⌉₊
    · rw [if_pos hFew, Nat.div_eq_of_lt hFew, Nat.mod_eq_of_lt hFew]
      rfl
    · have hEnough : ⌈u / p⌉₊ ≤ k := not_lt.mp hFew
      rw [if_neg hFew, ih _ (by omega), ← Nat.mod_eq_sub_mod hEnough,
        Nat.div_eq_sub_div hPos hEnough, List.replicate_succ]
      rfl

/-- **One pause.** The ticks from a pause to the next one. -/
theorem cutDelays_pause (hu : 0 < u) (hp : 0 < p) (n : ℕ) (late : ℚ) (pause : Pause)
    (ds : List ℚ) {m : ℕ} (hm : m = max (n + 1) ⌈(u - (late + pause.late)) / p⌉₊) :
    cutDelays u p n late (pause.delays ++ ds) =
      if n + 1 + pause.more < m then cutDelays u p (n + 1 + pause.more) (late + pause.late) ds
      else (m, late + pause.late) ::
        (List.replicate ((n + 1 + pause.more - m) / ⌈u / p⌉₊) (⌈u / p⌉₊, 0) ++
          cutDelays u p ((n + 1 + pause.more - m) % ⌈u / p⌉₊) 0 ds) := by
  rw [Pause.delays, List.cons_append, cutDelays]
  by_cases hFull : ⌈(u - (late + pause.late)) / p⌉₊ ≤ n + 1
  · rw [max_eq_left hFull] at hm
    rw [if_pos ((full_iff hp _ (n + 1)).mpr hFull), if_neg (by omega), cutDelays_whole hu hp, hm,
      Nat.add_sub_cancel_left]
  · rw [max_eq_right (not_le.mp hFull).le] at hm
    rw [if_neg fun h => hFull ((full_iff hp _ (n + 1)).mp h),
      cutDelays_replicate hp _ (not_le.mp hFull), ← hm, cutDelays_whole hu hp]

end Windows

/-! ## The reported rate -/

section Rate

variable {p u : ℚ} {w : Window ℚ Tick}

theorem round_of_nonneg {x : ℚ} (hx : 0 ≤ x) : (Double.fin x).round = .fin ⌊x + 1 / 2⌋ := by
  rw [Double.round, if_pos hx]

theorem rate_nonneg (hp : 0 < p) : 0 ≤ rate p :=
  Int.floor_nonneg.mpr (by positivity)

/-- The rounded measure of a window is the rate exactly when its idle time is absorbed. -/
theorem round_fps_iff (hp : 0 < p) (hWide : 0 < w.stop - w.start)
    (hFrames : frames w.items = w.items.length) :
    (Double.fin (windowMeasure w).fps).round = (Double.fin (1 / p)).round ↔
      Absorbed p w.items.length (idle p w) := by
  have hFps : (windowMeasure w).fps = w.items.length / (w.stop - w.start) := by
    rw [windowMeasure, hFrames]
    norm_cast
  have hRate : (0 : ℚ) ≤ rate p := by exact_mod_cast rate_nonneg hp
  have hHigh : (w.items.length : ℚ) / (w.stop - w.start) + 1 / 2 < rate p + 1 ↔
      w.items.length * (1 / (rate p + 1 / 2) - p) < idle p w := by
    have hPos : (0 : ℚ) < rate p + 1 / 2 := by linarith
    calc (w.items.length : ℚ) / (w.stop - w.start) + 1 / 2 < rate p + 1
        ↔ w.items.length / (w.stop - w.start) < rate p + 1 / 2 := by
          constructor <;> intro h <;> linarith
      _ ↔ w.items.length / (rate p + 1 / 2) < w.stop - w.start := div_lt_comm₀ hWide hPos
      _ ↔ w.items.length * (1 / (rate p + 1 / 2) - p) < idle p w := by
          rw [idle, mul_sub, mul_one_div, sub_lt_sub_iff_right]
  have hLow : (rate p : ℚ) ≤ w.items.length / (w.stop - w.start) + 1 / 2 ↔
      (rate p ≠ 0 → idle p w ≤ w.items.length * (1 / (rate p - 1 / 2) - p)) := by
    by_cases hZero : rate p = 0
    · refine iff_of_true ?_ fun hNot => absurd hZero hNot
      rw [hZero]
      positivity
    · have hOne : (1 : ℚ) ≤ rate p := by
        exact_mod_cast (rate_nonneg hp).lt_of_ne' hZero
      have hPos : (0 : ℚ) < rate p - 1 / 2 := by linarith
      rw [imp_iff_right hZero]
      calc (rate p : ℚ) ≤ w.items.length / (w.stop - w.start) + 1 / 2
          ↔ rate p - 1 / 2 ≤ w.items.length / (w.stop - w.start) := sub_le_iff_le_add.symm
        _ ↔ w.stop - w.start ≤ w.items.length / (rate p - 1 / 2) := le_div_comm₀ hPos hWide
        _ ↔ idle p w ≤ w.items.length * (1 / (rate p - 1 / 2) - p) := by
            rw [idle, mul_sub, mul_one_div, sub_le_sub_iff_right]
  rw [hFps, round_of_nonneg (by positivity), round_of_nonneg (by positivity), Double.fin.injEq,
    Int.cast_inj, ← rate, Int.floor_eq_iff, hHigh, hLow, Absorbed, and_comm]

/-- Without a delay the rate is measured exactly. -/
theorem absorbed_zero (hp : 0 < p) {n : ℕ} (hn : 0 < n) : Absorbed p n 0 := by
  have hFloor : (rate p : ℚ) ≤ 1 / p + 1 / 2 := Int.floor_le _
  have hCeil : 1 / p + 1 / 2 < rate p + 1 := Int.lt_floor_add_one _
  have hRate : (0 : ℚ) ≤ rate p := by exact_mod_cast rate_nonneg hp
  have hTicks : (0 : ℚ) < n := by exact_mod_cast hn
  constructor
  · have hShort : 1 / (rate p + 1 / 2) < p := by
      rw [one_div_lt (by linarith) hp]
      linarith
    exact mul_neg_of_pos_of_neg hTicks (sub_neg.mpr hShort)
  · intro hNonzero
    have hOne : (1 : ℚ) ≤ rate p := by exact_mod_cast (rate_nonneg hp).lt_of_ne' hNonzero
    have hLong : p ≤ 1 / (rate p - 1 / 2) := by
      rw [le_one_div hp (by linarith)]
      linarith
    exact mul_nonneg hTicks.le (sub_nonneg.mpr hLong)

/-- All windows absorb their delays exactly if the pauses are spared. -/
theorem spared_iff (hu : 0 < u) (hp : 0 < p) (n : ℕ) (late : ℚ) (ps : List Pause) :
    (∀ w ∈ cutDelays u p n late (ps.flatMap Pause.delays), Absorbed p w.1 w.2) ↔
      Spared u p n late ps := by
  have hPos : 0 < ⌈u / p⌉₊ := Nat.ceil_pos.mpr (div_pos hu hp)
  induction ps generalizing n late with
  | nil => simp [cutDelays, Spared]
  | cons pause ps ih =>
    rw [List.flatMap_cons, cutDelays_pause hu hp n late pause _ rfl, Spared]
    split_ifs
    · exact ih _ _
    · rw [List.forall_mem_cons, List.forall_mem_append]
      refine and_congr_right fun _ => (and_iff_right ?_).trans (ih _ _)
      intro w hw
      obtain rfl := List.eq_of_mem_replicate hw
      exact absorbed_zero hp hPos

end Rate

/-- **A steady display.** Every report is the rate of the display exactly when the pauses are
spared: each, with those before it that fall into the same window, is too short to move the
rounded rate of that window, the time from the boot to the first tick among them. -/
theorem steady_reports_iff (u p : ℚ) (hu : 0 < u) (hp : 0 < p) (events : List DisplayEvent)
    (hSteady : Steady p (fired events)) :
    ∃ s, (step .exact).run (created true u) (events.map DisplayEvent.event) = some s ∧
      ((∀ r ∈ s.reports, r = (Double.fin (1 / p)).round) ↔ Spared u p 0 0 (pauses p events)) := by
  obtain ⟨s, hRun, -, hReports⟩ := run_created true hu events
  have hCut := Cutter.isCut_cutAll (fun t : Tick => t.time) u 0 (fired events)
  have hWide : ∀ w ∈ windows u events, 0 < w.stop - w.start :=
    fun w hw => hu.trans_le (hCut.wide w hw)
  have hFrames : ∀ w ∈ windows u events, frames w.items = w.items.length := by
    intro w hw
    obtain ⟨pre, post, hFired, -⟩ := hCut.segment w hw
    have hOnes : w.items.map (fun t => t.frames) = w.items.map fun _ => 1 :=
      List.map_congr_left fun t ht => hSteady.frames t (by simp [hFired, ht])
    rw [frames, hOnes]
    simp
  have hWindows : (windows u events).map (fun w => (w.items.length, idle p w)) =
      cutDelays u p 0 0 ((pauses p events).flatMap Pause.delays) := by
    rw [← delays_fired hSteady]
    exact windows_eq_cutDelays (c := .new 0) (fired events) rfl (by simp [Cutter.new])
  refine ⟨s, hRun, ?_⟩
  rw [hReports, if_pos rfl, ← spared_iff hu hp, ← hWindows, List.map_map, List.forall_mem_map,
    List.forall_mem_map]
  exact forall₂_congr fun w hw => round_fps_iff hp (hWide w hw) (hFrames w hw)

/-- The monitor starts with the boot, and is paused for a tenth of a second. -/
theorem steady_reports_iff_half_second :
    ∃ s, (step .exact).run (created true 1) ([.open, .tick (1/2) 1, .tick 1 1, .tick (3/2) 1,
        .close, .open, .tick (21/10) 1].map DisplayEvent.event) = some s ∧
      ((∀ r ∈ s.reports, r = (Double.fin (1 / (1/2))).round) ↔ Spared 1 (1/2) 0 0
        (pauses (1/2) [.open, .tick (1/2) 1, .tick 1 1, .tick (3/2) 1, .close, .open,
          .tick (21/10) 1])) := by
  refine steady_reports_iff 1 (1/2) one_pos (by norm_num) _ ⟨by decide, ?_⟩
  simp [fired, ticks, DisplayEvent.event, Event.pauses]
  norm_num

/-- The monitor is opened a thousand seconds after the boot, on a display of 60 Hz. -/
theorem first_report_not_rate :
    ¬ ∀ (u p : ℚ), 0 < u → 0 < p → ∀ events, Steady p (fired events) →
      ∀ s, (step .exact).run (created true u) (events.map DisplayEvent.event) = some s →
        ∀ r ∈ s.reports, r = (Double.fin (1 / p)).round := by
  intro hExact
  have hRate := hExact 1 (1/60) one_pos (by norm_num) [.open, .tick 1000 1]
    ⟨by decide, List.isChain_singleton _⟩ _ rfl
  exact absurd (hRate (.fin 0) (by decide +kernel)) (by decide +kernel)

end FPS

end LeigodAPM
