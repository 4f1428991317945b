import LeigodAPM.Foundation.Grid
import LeigodAPM.Monitor.MonitorContainerView
import LeigodAPM.Views.Geometry

/-!
# The places of the tiles

`layoutSubviews` puts the device view on top, the tiles of the app and of the system in rows of
two below it, each row after the last frame that was set, and the network tile at the bottom. A
touch goes to the topmost view that contains it.

* `layoutSubviews_eq`: the tiles of the app and of the system make up one grid.
* `touch_of_point`: each point of the content lies in exactly one view, and a touch there
  reports the type of its tile, in whatever order the views were added.
-/

namespace LeigodAPM

open Foundation

/-- A view of the container, with the type that a tap on it reports. -/
structure Tile where
  type : Option MonitorSystemType
  frame : CGRect
  deriving DecidableEq

/-- A point on the left or upper edge is inside. -/
def CGRect.contains (rect : CGRect) (p : CGPoint) : Bool :=
  rect.minX ≤ p.x ∧ p.x < rect.maxX ∧ rect.minY ≤ p.y ∧ p.y < rect.maxY

namespace MonitorContainerView

def monitorAppViews : List MonitorSystemType := [.appCPU, .appRAM, .appFPS, .appNET]

def monitorSysViews : List MonitorSystemType := [.sysCPU, .sysRAM]

/-- `width` is `self.frame.size.width`. -/
def deviceFrame (width : ℚ) : CGRect := ⟨⟨0, 0⟩, ⟨width, 100⟩⟩

/-- The place of the `i`-th tile when `rect` is that of the first one. -/
def place (rect : CGRect) (i : ℕ) : CGRect :=
  ⟨⟨rect.origin.x + rect.size.width * (i % 2 : ℕ), rect.origin.y + rect.size.height * (i / 2 : ℕ)⟩,
    rect.size⟩

/-- The frame of `monitorAppViews[i]`. -/
def appFrame (width : ℚ) (i : ℕ) : CGRect :=
  let rect := deviceFrame width
  place ⟨⟨rect.origin.x, rect.maxY⟩, ⟨width / 2, 100⟩⟩ i

/-- The frame of `monitorSysViews[i]`, after the last frame of the app. -/
def sysFrame (last : CGRect) (i : ℕ) : CGRect :=
  place ⟨⟨0, last.origin.y + last.size.height⟩, last.size⟩ i

/-- `views.last?.frame ?? CGRect.zero` -/
def lastFrame (tiles : List Tile) : CGRect := (tiles.getLast?.map Tile.frame).getD .zero

/-- `layoutSubviews()`: the subviews with their frames, and `contentSize`. -/
def layoutSubviews (width : ℚ) (apps sys : List MonitorSystemType) : List Tile × CGSize :=
  let appTiles := apps.zipIdx.map fun (type, i) => ⟨some type, appFrame width i⟩
  let sysTiles := sys.zipIdx.map fun (type, i) => ⟨some type, sysFrame (lastFrame appTiles) i⟩
  let last := lastFrame sysTiles
  let netFrame : CGRect := ⟨⟨0, last.origin.y + last.size.height⟩, ⟨width, last.size.height⟩⟩
  (⟨none, deviceFrame width⟩ :: (appTiles ++ sysTiles ++ [⟨some .sysNET, netFrame⟩]),
    ⟨width, netFrame.maxY⟩)

/-- The type that a touch at a point reports; UIKit asks the last subview first. The lines inside
the tiles are left out. -/
def touch (views : List Tile) (p : CGPoint) : Option MonitorSystemType :=
  (views.reverse.find? (·.frame.contains p)).bind Tile.type

/-! ## One grid -/

section Layout

variable {width : ℚ} {apps sys : List MonitorSystemType}

/-- A place in the grid below the device view. -/
def cellFrame (width : ℚ) (i : ℕ) : CGRect :=
  ⟨⟨width / 2 * (i % 2 : ℕ), 100 + 100 * (i / 2 : ℕ)⟩, ⟨width / 2, 100⟩⟩

theorem appFrame_eq (width : ℚ) (i : ℕ) : appFrame width i = cellFrame width i := by
  simp [appFrame, deviceFrame, place, cellFrame, CGRect.maxY]

/-- After a full row the next tile begins a new one. -/
theorem sysFrame_eq {n : ℕ} (hPos : 0 < n) (hEven : Even n) (width : ℚ) (i : ℕ) :
    sysFrame (cellFrame width (n - 1)) i = cellFrame width (n + i) := by
  obtain ⟨m, rfl⟩ := hEven
  have hLast : (m + m - 1) / 2 = m - 1 := by omega
  have hRow : (m + m + i) / 2 = m + i / 2 := by omega
  have hColumn : (m + m + i) % 2 = i % 2 := by omega
  have hCast : ((m - 1 : ℕ) : ℚ) = m - 1 := by
    rw [Nat.cast_sub (by omega), Nat.cast_one]
  simp only [sysFrame, place, cellFrame, hLast, hRow, hColumn, hCast, Nat.cast_add, zero_add]
  congr 2
  ring

theorem lastFrame_zipIdx {l : List MonitorSystemType} (hNonempty : l ≠ []) (f : ℕ → CGRect) :
    lastFrame (l.zipIdx.map fun (type, i) => ⟨some type, f i⟩) = f (l.length - 1) := by
  have hLast : l.zipIdx.getLast? = some (l.getLast hNonempty, l.length - 1) := by
    rw [List.getLast?_eq_getElem?, List.length_zipIdx, List.getElem?_zipIdx,
      ← List.getLast?_eq_getElem?, List.getLast?_eq_some_getLast hNonempty]
    simp
  rw [lastFrame, List.getLast?_map, hLast]
  rfl

/-- The tile of a numbered type in the grid. -/
def gridTile (width : ℚ) (q : MonitorSystemType × ℕ) : Tile := ⟨some q.1, cellFrame width q.2⟩

/-- The network tile, below `n` tiles. -/
def netTile (width : ℚ) (n : ℕ) : Tile :=
  ⟨some .sysNET, ⟨⟨0, 100 + 100 * (n / 2 : ℕ)⟩, ⟨width, 100⟩⟩⟩

/-- Rows without a gap. -/
def FullRows (types : List MonitorSystemType) : Prop := types ≠ [] ∧ Even types.length

/-- One grid holds all tiles but the first and the last. -/
theorem layoutSubviews_eq (hApps : FullRows apps) (hSys : FullRows sys) :
    layoutSubviews width apps sys =
      (⟨none, deviceFrame width⟩ :: ((apps ++ sys).zipIdx.map (gridTile width) ++
        [netTile width (apps ++ sys).length]),
      ⟨width, 200 + 100 * ((apps ++ sys).length / 2 : ℕ)⟩) := by
  have hPos : 0 < apps.length := List.length_pos_of_ne_nil hApps.1
  have hSysPos : 0 < sys.length := List.length_pos_of_ne_nil hSys.1
  have hAppTiles : (apps.zipIdx.map fun (type, i) => (⟨some type, appFrame width i⟩ : Tile)) =
      apps.zipIdx.map (gridTile width) := by
    refine List.map_congr_left fun q _ => ?_
    simp only [gridTile, appFrame_eq]
  have hLast : lastFrame (apps.zipIdx.map (gridTile width)) = cellFrame width (apps.length - 1) :=
    lastFrame_zipIdx hApps.1 (cellFrame width)
  have hSysTiles : (sys.zipIdx.map fun (type, i) =>
      (⟨some type, sysFrame (cellFrame width (apps.length - 1)) i⟩ : Tile)) =
      (sys.zipIdx apps.length).map (gridTile width) := by
    rw [List.zipIdx_eq_map_add (i := apps.length), List.map_map]
    refine List.map_congr_left fun q _ => ?_
    simp only [Function.comp_apply, gridTile, sysFrame_eq hPos hApps.2]
  have hLastSys : lastFrame (sys.zipIdx.map fun (type, i) =>
      ⟨some type, sysFrame (cellFrame width (apps.length - 1)) i⟩) =
      cellFrame width (apps.length + (sys.length - 1)) := by
    rw [lastFrame_zipIdx hSys.1, sysFrame_eq hPos hApps.2]
  have hRows : (apps.length + (sys.length - 1)) / 2 + 1 = (apps ++ sys).length / 2 := by
    obtain ⟨m, hm⟩ := hApps.2
    obtain ⟨k, hk⟩ := hSys.2
    rw [List.length_append]
    omega
  have hNet : (cellFrame width (apps.length + (sys.length - 1))).origin.y + 100 =
      100 + 100 * ((apps ++ sys).length / 2 : ℕ) := by
    rw [← hRows, cellFrame]
    push_cast
    ring
  have hHeight : (cellFrame width (apps.length + (sys.length - 1))).size.height = 100 := rfl
  have hMaxY (y : ℚ) : CGRect.maxY ⟨⟨0, y⟩, ⟨width, 100⟩⟩ = y + 100 := by
    simp [CGRect.maxY]
  simp only [layoutSubviews, hAppTiles, hLast, hLastSys, hHeight, hNet, hMaxY]
  rw [hSysTiles, List.zipIdx_append, List.map_append, Nat.zero_add]
  congr 2
  ring

/-! ## Touches -/

/-- The type at a point of the content, from its row and column. -/
def typeAt (width : ℚ) (types : List MonitorSystemType) (p : CGPoint) : Option MonitorSystemType :=
  if p.y < 100 then none
  else some ((types[cellOf 2 (width / 2) 100 p.x (p.y - 100)]?).getD .sysNET)

theorem contains_iff {x y a b : ℚ} (ha : 0 ≤ a) (hb : 0 ≤ b) (p : CGPoint) :
    CGRect.contains ⟨⟨x, y⟩, ⟨a, b⟩⟩ p = true ↔
      (x ≤ p.x ∧ p.x < x + a) ∧ y ≤ p.y ∧ p.y < y + b := by
  simp [CGRect.contains, CGRect.minX, CGRect.maxX, CGRect.minY, CGRect.maxY, ha, hb, and_assoc]

theorem cellFrame_contains (hWidth : 0 < width) (i : ℕ) (p : CGPoint) :
    (cellFrame width i).contains p = true ↔ InCell 2 (width / 2) 100 i p.x (p.y - 100) := by
  rw [cellFrame, contains_iff (by linarith) (by norm_num), InCell, InPart, InPart]
  constructor
  · rintro ⟨hX, hLow, hHigh⟩
    exact ⟨hX, by linarith, by linarith⟩
  · rintro ⟨hX, hLow, hHigh⟩
    exact ⟨hX, by linarith, by linarith⟩

theorem inCell_range (hWidth : 0 < width) {i : ℕ} {x y : ℚ}
    (hCell : InCell 2 (width / 2) 100 i x y) : (0 ≤ x ∧ x < width) ∧ 0 ≤ y := by
  obtain ⟨⟨hLeft, hRight⟩, hTop, -⟩ := hCell
  have hRow : (0 : ℚ) ≤ 100 * (i / 2 : ℕ) := by positivity
  rcases Nat.mod_two_eq_zero_or_one i with hMod | hMod
  · rw [hMod, Nat.cast_zero] at hLeft hRight
    exact ⟨⟨by linarith, by linarith⟩, by linarith⟩
  · rw [hMod, Nat.cast_one] at hLeft hRight
    exact ⟨⟨by linarith, by linarith⟩, by linarith⟩

/-- The tile of the grid in the row and column of a point. -/
def gridAt (width : ℚ) (types : List MonitorSystemType) (p : CGPoint) : List Tile :=
  (types[cellOf 2 (width / 2) 100 p.x (p.y - 100)]?.map fun t =>
    gridTile width (t, cellOf 2 (width / 2) 100 p.x (p.y - 100))).toList

theorem filter_gridTiles (hWidth : 0 < width) (types : List MonitorSystemType) (p : CGPoint) :
    (types.zipIdx.map (gridTile width)).filter (·.frame.contains p) =
      if (0 ≤ p.x ∧ p.x < width) ∧ 100 ≤ p.y then gridAt width types p else [] := by
  rw [List.filter_map]
  split_ifs with hRange
  · obtain ⟨⟨hLeft, hRight⟩, hTop⟩ := hRange
    have hCell (q : MonitorSystemType × ℕ) :
        ((fun t : Tile => t.frame.contains p) ∘ gridTile width) q =
          decide (q.2 = 0 + cellOf 2 (width / 2) 100 p.x (p.y - 100)) := by
      rw [Bool.eq_iff_iff, decide_eq_true_iff, Nat.zero_add]
      have hTwo : p.x < width / 2 * (2 : ℕ) := by
        push_cast
        linarith
      exact (cellFrame_contains hWidth q.2 p).trans
        (inCell_iff (by linarith) (by norm_num) hLeft hTwo (by linarith))
    have hFilter := filter_zipIdx types (cellOf 2 (width / 2) 100 p.x (p.y - 100)) 0
    rw [List.filter_congr fun q _ => hCell q, hFilter, Nat.zero_add, gridAt]
    cases types[cellOf 2 (width / 2) 100 p.x (p.y - 100)]? with
    | none => rfl
    | some t => rfl
  · refine List.map_eq_nil_iff.mpr (List.filter_eq_nil_iff.mpr fun q _ hContains => hRange ?_)
    have hIn := inCell_range hWidth ((cellFrame_contains hWidth q.2 p).mp hContains)
    exact ⟨hIn.1, by linarith [hIn.2]⟩

/-- The views that contain a point: the content has a band for the device view, one for the
rows of the grid and one for the network tile. -/
theorem filter_tiles (hWidth : 0 < width) (types : List MonitorSystemType) (r : ℕ) (p : CGPoint) :
    (⟨none, deviceFrame width⟩ :: (types.zipIdx.map (gridTile width) ++
      [netTile width (2 * r)])).filter (·.frame.contains p) =
      (if (0 ≤ p.x ∧ p.x < width) ∧ 0 ≤ p.y ∧ p.y < 100 then [⟨none, deviceFrame width⟩] else []) ++
        ((if (0 ≤ p.x ∧ p.x < width) ∧ 100 ≤ p.y then gridAt width types p else []) ++
        if (0 ≤ p.x ∧ p.x < width) ∧ 100 + 100 * r ≤ p.y ∧ p.y < 200 + 100 * r then
          [netTile width (2 * r)]
        else []) := by
  have hOne (t : Tile) {P : Prop} [Decidable P] (hP : t.frame.contains p = true ↔ P) :
      [t].filter (·.frame.contains p) = if P then [t] else [] := by
    by_cases h : P
    · simp [hP.mpr h, h]
    · have hFalse : t.frame.contains p = false := Bool.eq_false_of_not_eq_true (h ∘ hP.mp)
      simp [hFalse, h]
  have hDevice : (deviceFrame width).contains p = true ↔
      (0 ≤ p.x ∧ p.x < width) ∧ 0 ≤ p.y ∧ p.y < 100 := by
    rw [deviceFrame, contains_iff hWidth.le (by norm_num), zero_add, zero_add]
  have hNet : (netTile width (2 * r)).frame.contains p = true ↔
      (0 ≤ p.x ∧ p.x < width) ∧ 100 + 100 * r ≤ p.y ∧ p.y < 200 + 100 * r := by
    have hSum : (100 + 100 * r + 100 : ℚ) = 200 + 100 * r := by ring
    rw [netTile, Nat.mul_div_cancel_left r (by decide), contains_iff hWidth.le (by norm_num),
      zero_add, hSum]
  rw [← List.singleton_append, List.filter_append, List.filter_append,
    hOne ⟨none, deviceFrame width⟩ hDevice, hOne (netTile width (2 * r)) hNet,
    filter_gridTiles hWidth]

/-- A point of the content lies in one view, and no other point lies in a view. -/
structure OneView (width : ℚ) (types : List MonitorSystemType) (tiles : List Tile) (size : CGSize)
    (p : CGPoint) : Prop where
  inside : CGRect.contains ⟨⟨0, 0⟩, size⟩ p = true →
    ∃ t, tiles.filter (·.frame.contains p) = [t] ∧ t.type = typeAt width types p
  outside : CGRect.contains ⟨⟨0, 0⟩, size⟩ p = false → tiles.filter (·.frame.contains p) = []

/-- The content is as high as its three bands. -/
theorem content_contains (hWidth : 0 < width) (r : ℕ) (p : CGPoint) :
    CGRect.contains ⟨⟨0, 0⟩, ⟨width, 200 + 100 * (r : ℚ)⟩⟩ p = true ↔
      (0 ≤ p.x ∧ p.x < width) ∧ 0 ≤ p.y ∧ p.y < 200 + 100 * r := by
  have hHeight : (0 : ℚ) ≤ 200 + 100 * r := by positivity
  rw [contains_iff hWidth.le hHeight, zero_add, zero_add]

/-- A full grid has a tile for a point exactly above its last row. -/
theorem cellOf_lt_rows (hWidth : 0 < width) {p : CGPoint} (hX : 0 ≤ p.x ∧ p.x < width)
    (hTop : 100 ≤ p.y) (r : ℕ) :
    cellOf 2 (width / 2) 100 p.x (p.y - 100) < 2 * r ↔ p.y < 100 + 100 * r := by
  have hTwo : p.x < width / 2 * (2 : ℕ) := by
    push_cast
    linarith [hX.2]
  rw [cellOf_lt_iff (by linarith) (by norm_num) hX.1 hTwo (by linarith) r, sub_lt_iff_lt_add']

theorem filter_tiles_inside (hWidth : 0 < width) {types : List MonitorSystemType} {r : ℕ}
    (hr : types.length = 2 * r) {p : CGPoint} (hX : 0 ≤ p.x ∧ p.x < width)
    (hY : 0 ≤ p.y ∧ p.y < 200 + 100 * r) :
    ∃ t, (⟨none, deviceFrame width⟩ :: (types.zipIdx.map (gridTile width) ++
      [netTile width (2 * r)])).filter (·.frame.contains p) = [t] ∧
      t.type = typeAt width types p := by
  obtain ⟨hTop, hBottom⟩ := hY
  have hRows : (0 : ℚ) ≤ r := by positivity
  rw [filter_tiles hWidth, typeAt]
  by_cases hDevice : p.y < 100
  · have hNotGrid : ¬ 100 ≤ p.y := not_le.mpr hDevice
    have hNotNet : ¬ 100 + 100 * (r : ℚ) ≤ p.y := by linarith
    simp [hX, hTop, hDevice, hNotGrid, hNotNet]
  · have hGrid : 100 ≤ p.y := not_lt.mp hDevice
    by_cases hRow : p.y < 100 + 100 * (r : ℚ)
    · have hLt : cellOf 2 (width / 2) 100 p.x (p.y - 100) < types.length := by
        rw [hr, cellOf_lt_rows hWidth hX hGrid]
        exact hRow
      have hNotNet : ¬ 100 + 100 * (r : ℚ) ≤ p.y := not_le.mpr hRow
      simp [hX, hDevice, hGrid, hNotNet, gridAt, List.getElem?_eq_getElem hLt, gridTile]
    · have hNet : 100 + 100 * (r : ℚ) ≤ p.y := not_lt.mp hRow
      have hNone : types[cellOf 2 (width / 2) 100 p.x (p.y - 100)]? = none := by
        rw [List.getElem?_eq_none_iff, hr, ← not_lt, cellOf_lt_rows hWidth hX hGrid]
        exact hRow
      simp [hX, hDevice, hGrid, hNet, hBottom, gridAt, hNone, netTile]

theorem filter_tiles_outside (hWidth : 0 < width) {types : List MonitorSystemType} {r : ℕ}
    (hr : types.length = 2 * r) {p : CGPoint}
    (hNot : ¬ ((0 ≤ p.x ∧ p.x < width) ∧ 0 ≤ p.y ∧ p.y < 200 + 100 * (r : ℚ))) :
    (⟨none, deviceFrame width⟩ :: (types.zipIdx.map (gridTile width) ++
      [netTile width (2 * r)])).filter (·.frame.contains p) = [] := by
  have hRows : (0 : ℚ) ≤ r := by positivity
  have hGrid (hIn : (0 ≤ p.x ∧ p.x < width) ∧ 100 ≤ p.y) : gridAt width types p = [] := by
    obtain ⟨hX, hTop⟩ := hIn
    have hNone : types[cellOf 2 (width / 2) 100 p.x (p.y - 100)]? = none := by
      rw [List.getElem?_eq_none_iff, hr, ← not_lt, cellOf_lt_rows hWidth hX hTop]
      intro hLt
      exact hNot ⟨hX, by linarith, by linarith⟩
    rw [gridAt, hNone]
    rfl
  have hNotDevice : ¬ ((0 ≤ p.x ∧ p.x < width) ∧ 0 ≤ p.y ∧ p.y < 100) :=
    fun ⟨hX, hTop, hBottom⟩ => hNot ⟨hX, hTop, by linarith⟩
  have hNotNet : ¬ ((0 ≤ p.x ∧ p.x < width) ∧ 100 + 100 * (r : ℚ) ≤ p.y ∧
      p.y < 200 + 100 * r) :=
    fun ⟨hX, hTop, hBottom⟩ => hNot ⟨hX, by linarith, hBottom⟩
  rw [filter_tiles hWidth, if_neg hNotDevice, if_neg hNotNet]
  split_ifs with hIn
  · rw [hGrid hIn]
    rfl
  · rfl

theorem oneView_layoutSubviews (hWidth : 0 < width) (hApps : FullRows apps) (hSys : FullRows sys)
    (p : CGPoint) : OneView width (apps ++ sys) (layoutSubviews width apps sys).1
      (layoutSubviews width apps sys).2 p := by
  obtain ⟨r, hr⟩ : ∃ r, (apps ++ sys).length = 2 * r := by
    obtain ⟨m, hm⟩ := hApps.2
    obtain ⟨k, hk⟩ := hSys.2
    exact ⟨m + k, by rw [List.length_append]; omega⟩
  have hHalf : (apps ++ sys).length / 2 = r := by omega
  rw [layoutSubviews_eq hApps hSys, hHalf, hr]
  constructor
  · intro hIn
    obtain ⟨hX, hY⟩ := (content_contains hWidth r p).mp hIn
    exact filter_tiles_inside hWidth hr hX hY
  · intro hOut
    refine filter_tiles_outside hWidth hr ?_
    rw [← content_contains hWidth, hOut]
    simp

theorem touch_eq_getLast (views : List Tile) (p : CGPoint) :
    touch views p = (views.filter (·.frame.contains p)).getLast?.bind Tile.type := by
  rw [touch, ← List.head?_filter, List.filter_reverse, List.head?_reverse]

/-- **Touches.** Each point of the content lies in exactly one view, and a touch there reports
the type in that row and column, in whatever order the views lie over each other. -/
theorem touch_of_point (hWidth : 0 < width) (hApps : FullRows apps) (hSys : FullRows sys)
    (views : List Tile) (hViews : views.Perm (layoutSubviews width apps sys).1) (p : CGPoint) :
    OneView width (apps ++ sys) views (layoutSubviews width apps sys).2 p ∧
      touch views p = if CGRect.contains ⟨⟨0, 0⟩, (layoutSubviews width apps sys).2⟩ p then
        typeAt width (apps ++ sys) p else none := by
  have hTiles := oneView_layoutSubviews hWidth hApps hSys p
  have hFilter := hViews.filter fun t => t.frame.contains p
  have hView : OneView width (apps ++ sys) views (layoutSubviews width apps sys).2 p := by
    constructor
    · intro hIn
      obtain ⟨t, hOne, hType⟩ := hTiles.inside hIn
      rw [hOne] at hFilter
      exact ⟨t, hFilter.eq_singleton, hType⟩
    · intro hOut
      rw [hTiles.outside hOut] at hFilter
      exact hFilter.eq_nil
  refine ⟨hView, ?_⟩
  rw [touch_eq_getLast]
  split_ifs with hIn
  · obtain ⟨t, hOne, hType⟩ := hView.inside hIn
    rw [hOne, ← hType]
    rfl
  · rw [hView.outside (Bool.eq_false_of_not_eq_true hIn)]
    rfl

/-- The arrays of the container, with the network tile below the others. -/
theorem touch_of_point_container : OneView 375 (monitorAppViews ++ monitorSysViews)
      (layoutSubviews 375 monitorAppViews monitorSysViews).1
      (layoutSubviews 375 monitorAppViews monitorSysViews).2 ⟨200, 350⟩ ∧
    touch (layoutSubviews 375 monitorAppViews monitorSysViews).1 ⟨200, 350⟩ =
      if CGRect.contains ⟨⟨0, 0⟩, (layoutSubviews 375 monitorAppViews monitorSysViews).2⟩
        ⟨200, 350⟩ then typeAt 375 (monitorAppViews ++ monitorSysViews) ⟨200, 350⟩ else none :=
  touch_of_point (by norm_num) ⟨by decide, by decide⟩ ⟨by decide, by decide⟩ _ (List.Perm.refl _) _

end Layout

end MonitorContainerView

end LeigodAPM
