import LeigodAPM.Monitor.MonitorContainerView

/-!
# The byte total on several pages

`Store` keeps one closure. A container that is created takes it over, and the containers before
it are never told about bytes again.

* `net_tile_of_run`: the tile of the newest container shows the total, and an older one keeps
  what it showed when it was succeeded.
-/

namespace LeigodAPM

open Foundation Machine

namespace Monitor

variable {F : FloatFormat} {q q' : Monitor} {e : Event}

/-- The newest container is subscribed, and knows the total when it is positive. -/
structure Subscribed (s : Screen) : Prop where
  change_iff : ∀ i, s.store.change = some i ↔ i + 1 = s.containers.length
  told : ∀ i, s.store.change = some i → 0 < s.store.networkMB →
    s.store.given.getLast? = some (i, s.store.networkMB)

/-- What an event does to `Store`. -/
theorem step_store (hStep : step F q e = some q') :
    (∃ byte, q'.state.store = q.state.store.addNetworkByte byte ∧
      q'.state.containers.length = q.state.containers.length) ∨
    (q'.state.store = q.state.store.networkByteDidChange q.state.containers.length ∧
      q'.state.containers.length = q.state.containers.length + 1) ∨
    (q'.state.store = q.state.store ∧
      q'.state.containers.length = q.state.containers.length) := by
  have hOnStore (s : Screen) (f : Store ℕ → Store ℕ) : (s.onStore f).store = f s.store ∧
      (s.onStore f).containers.length = s.containers.length := Screen.networkBytes_frame _ _
  cases e with
  | newContainer =>
    obtain rfl := Option.some.inj hStep
    obtain ⟨hStore, hLength⟩ := hOnStore
      { q.state with containers := q.state.containers ++ [.new] } (·.networkByteDidChange
        q.state.containers.length)
    exact Or.inr (Or.inl ⟨hStore, hLength.trans (by simp)⟩)
  | addNetworkByte byte =>
    obtain rfl := Option.some.inj hStep
    exact Or.inl ⟨byte, hOnStore q.state _⟩
  | post n =>
    obtain rfl := Option.some.inj hStep
    exact Or.inr (Or.inr ⟨rfl, List.length_map ..⟩)
  | refresh i timestamp frameInterval =>
    obtain ⟨c, -, rfl⟩ := Option.map_eq_some_iff.mp hStep
    obtain ⟨hStore, hLength⟩ := Screen.reports_frame i _ (q.state.onContainer i _)
    exact Or.inr (Or.inr ⟨hStore, hLength.trans (Screen.onContainer_length ..)⟩)
  | timer i r =>
    obtain ⟨c, -, rfl⟩ := Option.map_eq_some_iff.mp hStep
    exact Or.inr (Or.inr ⟨rfl, Screen.onContainer_length ..⟩)
  | execute i sample =>
    obtain ⟨c, -, hExecute⟩ := Option.bind_eq_some_iff.mp hStep
    obtain ⟨flow, -, rfl⟩ := Option.map_eq_some_iff.mp hExecute
    exact Or.inr (Or.inr ⟨rfl, Screen.onContainer_length ..⟩)
  | runNext =>
    obtain ⟨screen, blocks⟩ := q
    cases blocks with
    | nil => cases hStep
    | cons block blocks =>
      obtain rfl := Option.some.inj hStep
      exact Or.inr (Or.inr ⟨rfl, Screen.onContainer_length ..⟩)
  | setIsShowFPS isShowFPS keyWindow =>
    obtain rfl := Option.some.inj hStep
    exact Or.inr (Or.inr ⟨rfl, rfl⟩)

theorem Subscribed.step (hSub : Subscribed q.state) (hStep : step F q e = some q') :
    Subscribed q'.state := by
  rcases step_store hStep with ⟨byte, hStore, hLength⟩ | ⟨hStore, hLength⟩ | ⟨hStore, hLength⟩
  · refine ⟨fun i => ?_, fun i hi hPos => ?_⟩
    · rw [hStore, hLength]
      exact hSub.change_iff i
    · have hCall : q.state.store.step (.addNetworkByte byte) = some q'.state.store :=
        congrArg some hStore.symm
      exact Store.told_of_step hCall hi hPos
  · refine ⟨fun i => ?_, fun i hi hPos => ?_⟩
    · rw [hStore, hLength, Store.networkByteDidChange_change]
      constructor
      · intro h
        rw [Option.some.inj h]
      · intro h
        rw [Nat.succ.inj h]
    · have hCall : q.state.store.step (.networkByteDidChange q.state.containers.length) =
          some q'.state.store := congrArg some hStore.symm
      exact Store.told_of_step hCall hi hPos
  · refine ⟨fun i => ?_, fun i hi hPos => ?_⟩
    · rw [hStore, hLength]
      exact hSub.change_iff i
    · rw [hStore] at hi hPos ⊢
      exact hSub.told i hi hPos

/-- A container that is not the newest is told nothing. -/
theorem told_step (hSub : Subscribed q.state) (hStep : step F q e = some q') {i : ℕ}
    (hi : i + 1 < q.state.containers.length) :
    told q'.state.store i = told q.state.store i ∧ i + 1 < q'.state.containers.length := by
  have hOthers {calls : List (ℕ × ℚ)} (hCalls : ∀ call ∈ calls, call.1 ≠ i) :
      (calls.filterMap fun call => if call.1 = i then some call.2 else none) = [] :=
    List.filterMap_eq_nil_iff.mpr fun call hCall => if_neg (hCalls call hCall)
  rcases step_store hStep with ⟨byte, hStore, hLength⟩ | ⟨hStore, hLength⟩ | ⟨hStore, hLength⟩
  · obtain ⟨calls, hGiven, hCalls⟩ := Store.addNetworkByte_given q.state.store byte
    refine ⟨?_, hi.trans_eq hLength.symm⟩
    rw [hStore, told_append hGiven, hOthers, List.append_nil]
    intro call hCall hEq
    have hNewest := (hSub.change_iff call.1).mp (hCalls call hCall)
    omega
  · obtain ⟨calls, hGiven, hCalls⟩ :=
      Store.networkByteDidChange_given q.state.store q.state.containers.length
    refine ⟨?_, by omega⟩
    rw [hStore, told_append hGiven, hOthers, List.append_nil]
    intro call hCall hEq
    have hNewest := hCalls call hCall
    omega
  · rw [hStore, hLength]
    exact ⟨rfl, hi⟩

theorem told_run (hSub : Subscribed q.state) {events : List Event}
    (hRun : (step F).run q events = some q') {i : ℕ} (hi : i + 1 < q.state.containers.length) :
    told q'.state.store i = told q.state.store i := by
  induction events generalizing q with
  | nil =>
    obtain rfl := Option.some.inj hRun
    rfl
  | cons e events ih =>
    obtain ⟨q₁, hStep, hRest⟩ := Option.bind_eq_some_iff.mp hRun
    obtain ⟨hTold, hi₁⟩ := told_step hSub hStep hi
    rw [ih (hSub.step hStep) hRest hi₁, hTold]

theorem subscribed_run {events : List Event} (hRun : (step F).run start events = some q) :
    Subscribed q.state := by
  have hAlways : (step F).Always (fun _ q => Subscribed q.state) start events :=
    always_of_step ⟨fun i => by simp [start, Screen.start, Store.new], fun i hi => by cases hi⟩
      fun _ _ _ _ hSub hStep => hSub.step hStep
  exact hAlways.last hRun

/-- **One subscriber.** After a run, and after more events: the tile of the newest container
shows the total when it is positive, and that of every older one still shows the same text. -/
theorem net_tile_of_run (events more : List Event) (hRun : (step F).run start events = some q)
    (hMore : (step F).run q more = some q') :
    (∀ i c, q.state.containers[i]? = some c → i + 1 = q.state.containers.length →
      0 < q.state.store.networkMB →
      c.appNetView = (MonitorBaseView.new .appNET).configureByte q.state.store.networkMB) ∧
    ∀ i c c', q.state.containers[i]? = some c → q'.state.containers[i]? = some c' →
      i + 1 < q.state.containers.length → c'.appNetView = c.appNetView := by
  have hSub := subscribed_run hRun
  have hShows := (always_shows F events).last hRun
  have hShows' : Shows F (events ++ more) q' :=
    (always_shows F (events ++ more)).last (by rw [run_append, hRun]; exact hMore)
  constructor
  · intro i c hc hNewest hPos
    obtain ⟨-, rfl⟩ := getElem?_container hc
    have hLast := hSub.told i ((hSub.change_iff i).mpr hNewest) hPos
    have hTold : (told q.state.store i).getLast? = some q.state.store.networkMB := by
      obtain ⟨given, hGiven⟩ := List.getLast?_eq_some_iff.mp hLast
      simp [told, hGiven]
    rw [(hShows.tiles i).appNet, showing, hTold]
  · intro i c c' hc hc' hi
    obtain ⟨-, rfl⟩ := getElem?_container hc
    obtain ⟨-, rfl⟩ := getElem?_container hc'
    rw [(hShows'.tiles i).appNet, (hShows.tiles i).appNet, told_run hSub hMore hi]

theorem net_tile_of_run_second_page :
    ∃ q q', (step .exact).run start
        [.newContainer, .addNetworkByte 1500, .newContainer, .addNetworkByte 500] = some q ∧
      (step .exact).run q [.addNetworkByte 500] = some q' ∧
      (∀ i c, q.state.containers[i]? = some c → i + 1 = q.state.containers.length →
        0 < q.state.store.networkMB →
        c.appNetView = (MonitorBaseView.new .appNET).configureByte q.state.store.networkMB) ∧
      ∀ i c c', q.state.containers[i]? = some c → q'.state.containers[i]? = some c' →
        i + 1 < q.state.containers.length → c'.appNetView = c.appNetView :=
  ⟨_, _, rfl, rfl, net_tile_of_run (F := .exact)
    [.newContainer, .addNetworkByte 1500, .newContainer,
    .addNetworkByte 500] [.addNetworkByte 500] rfl rfl⟩

end Monitor

end LeigodAPM
