import Handheld.ByteString
import Handheld.SlidingWindow

/-!
# The graph of the signal strength (`GUI.h`, `Adafruit_GFX.cpp`)

`displayRSSIGraph` keeps the last 128 readings and draws a column for each, whose
height is `map` of the reading, which nothing clamps.

Results:
1. `mem_pixels_iff`: what a column lights on the display.
2. `graph_shows_history`: the columns are those of the last 128 readings.
3. `inArea_iff`: every column of every frame is in the area of the graph exactly
   when all readings are between -91 and -49; `rows_iff`: a column is drawn above
   the area exactly when a reading is above -49; `frames_fit`: nothing overflows.
-/

namespace Handheld

open ByteString

namespace RssiGraph

/-! ## Definitions -/

/-- `RSSI_HISTORY`. -/
abbrev rssiHistory : Nat := 127 + 1

def minRSSI : Int := -90
def maxRSSI : Int := -50
def graphHeight : Int := 30
def graphY : Int := 64 - graphHeight

/-- The array `rssiData`. -/
abbrev RssiData : Type := Fin rssiHistory → Int

/-- A reading of `WiFi.RSSI()`. -/
structure Reading where
  dBm : Int
  ge : -127 ≤ dBm
  le : dBm ≤ 0

/-- Arduino's `map`, with the integer division of C. -/
def map (x inMin inMax outMin outMax : Int) : Int :=
  ((x - inMin) * (outMax - outMin)).tdiv (inMax - inMin) + outMin

/-- The loop of `Adafruit_GFX::writeLine`, with the pixels that it writes. -/
def lineLoop (steep : Bool) (dx dy ystep : Int) : Nat → Int → Int → Int → List (Int × Int)
  | 0, _, _, _ => []
  | n + 1, x0, y0, err =>
    (if steep then (y0, x0) else (x0, y0)) ::
      let err := err - dy
      if err < 0 then lineLoop steep dx dy ystep n (x0 + 1) (y0 + ystep) (err + dx)
      else lineLoop steep dx dy ystep n (x0 + 1) y0 err

/-- The rest of `writeLine`, once the ends are exchanged as they have to be. -/
def plotLine (steep : Bool) (x0 y0 x1 y1 : Int) : List (Int × Int) :=
  let dx := x1 - x0
  let dy : Int := (y1 - y0).natAbs
  let ystep : Int := if y0 < y1 then 1 else -1
  lineLoop steep dx dy ystep (x1 - x0 + 1).toNat x0 y0 (dx.tdiv 2)

/-- `if (x0 > x1)` the ends are exchanged. -/
def orderLine (steep : Bool) (x0 y0 x1 y1 : Int) : List (Int × Int) :=
  if x0 > x1 then plotLine steep x1 y1 x0 y0 else plotLine steep x0 y0 x1 y1

/-- `Adafruit_GFX::writeLine`; on a steep line x and y are exchanged. -/
def writeLine (x0 y0 x1 y1 : Int) : List (Int × Int) :=
  if (y1 - y0).natAbs > (x1 - x0).natAbs then orderLine true y0 x0 y1 x1
  else orderLine false x0 y0 x1 y1

/-- `Adafruit_GFX::drawFastVLine`. -/
def drawFastVLine (x y h : Int) : List (Int × Int) := writeLine x y x (y + h - 1)

/-- `Adafruit_GrayOLED::drawPixel` writes a pixel that is on the display. -/
def onDisplay (p : Int × Int) : Bool := 0 ≤ p.1 ∧ p.1 < 128 ∧ 0 ≤ p.2 ∧ p.2 < 64

/-- A column: the arguments of `drawFastVLine`. -/
structure Column where
  x : Int
  y : Int
  height : Int
deriving DecidableEq, Repr

/-- The pixels of the display that the column lights. -/
def Column.pixels (c : Column) : List (Int × Int) :=
  (drawFastVLine c.x c.y c.height).filter onDisplay

/-- What is printed in a frame. -/
inductive Text
  | ssid (s : Bytes)
  | rssi (dBm : Int)
  | notConnected
deriving DecidableEq, Repr

/-- A frame: the texts with the places of the cursor, and the columns. -/
structure Frame where
  texts : List (Int × Int × Text)
  columns : List Column
deriving DecidableEq, Repr

/-- What the radio answers in a call of `displayRSSIGraph`. -/
inductive Answer
  | connected (ssid : Bytes) (rssi : Reading)
  | notConnected

/-- The column in the `i`-th place for a value of the history. -/
def column (i : Fin rssiHistory) (value : Int) : Column :=
  let height := map value minRSSI maxRSSI 0 graphHeight
  ⟨i, graphY + (graphHeight - height), height⟩

def initRSSIData : RssiData := fun _ => minRSSI

def displayRSSIGraph (rssiData : RssiData) : Answer → RssiData × Frame
  | .connected ssid rssi =>
    let rssiData := SlidingWindow.push rssiData rssi.dBm
    (rssiData,
      ⟨[(2, 14, .ssid ssid), (2, 25, .rssi rssi.dBm)],
        (List.finRange rssiHistory).map fun i => column i (rssiData i)⟩)
  | .notConnected => (rssiData, ⟨[(2, 14, .notConnected)], []⟩)

/-- The frames of successive calls. -/
def frames (rssiData : RssiData) : List Answer → List Frame
  | [] => []
  | a :: as =>
    let (rssiData, frame) := displayRSSIGraph rssiData a
    frame :: frames rssiData as

def Answer.reading : Answer → Option Reading
  | .connected _ rssi => some rssi
  | .notConnected => none

/-- The readings taken. -/
def readings (as : List Answer) : List Reading := as.filterMap Answer.reading

/-- The pixels of the column are in the rows of the graph. The texts of a frame
end above them, at row 32, and the header at row 12. -/
def Column.InRows (c : Column) : Prop := ∀ p ∈ c.pixels, 34 ≤ p.2 ∧ p.2 ≤ 63

/-- The columns of the frame lie in the area of the graph. -/
structure Frame.InArea (f : Frame) : Prop where
  height : ∀ c ∈ f.columns, 0 ≤ c.height ∧ c.height ≤ graphHeight
  rows : ∀ c ∈ f.columns, c.InRows

/-! ## 1. A column on the display -/

theorem lineLoop_straight {err : Int} (herr : 0 ≤ err) (steep : Bool) (dx ystep a b : Int)
    (n : Nat) :
    lineLoop steep dx 0 ystep (n + 1) a b err =
      (if steep then (b, a) else (a, b)) :: lineLoop steep dx 0 ystep n (a + 1) b err := by
  rw [lineLoop, Int.sub_zero, if_neg (Int.not_lt.mpr herr)]

/-- A line along the axis: the loop writes its pixels one after the other. -/
theorem mem_lineLoop_iff {err : Int} (herr : 0 ≤ err) (steep : Bool) (dx ystep a b : Int) (n : Nat)
    (p : Int × Int) :
    p ∈ lineLoop steep dx 0 ystep n a b err ↔
      ∃ k, a ≤ k ∧ k < a + n ∧ p = if steep then (b, k) else (k, b) := by
  induction n generalizing a with
  | zero =>
    simp only [lineLoop, List.not_mem_nil, false_iff]
    rintro ⟨k, hge, hlt, -⟩
    omega
  | succ n ih =>
    rw [lineLoop_straight herr, List.mem_cons, ih]
    constructor
    · rintro (rfl | ⟨k, hge, hlt, rfl⟩)
      · exact ⟨a, Int.le_refl a, by omega, rfl⟩
      · exact ⟨k, by omega, by omega, rfl⟩
    · rintro ⟨k, hge, hlt, rfl⟩
      by_cases hk : k = a
      · exact .inl (by rw [hk])
      · exact .inr ⟨k, by omega, by omega, rfl⟩

theorem mem_orderLine_iff (steep : Bool) (x0 x1 y : Int) (p : Int × Int) :
    p ∈ orderLine steep x0 y x1 y ↔
      ∃ k, min x0 x1 ≤ k ∧ k ≤ max x0 x1 ∧ p = if steep then (y, k) else (k, y) := by
  have hplot : ∀ a b : Int, a ≤ b → (p ∈ plotLine steep a y b y ↔
      ∃ k, a ≤ k ∧ k ≤ b ∧ p = if steep then (y, k) else (k, y)) := by
    intro a b hle
    have herr : 0 ≤ (b - a).tdiv 2 := Int.tdiv_nonneg (by omega) (by decide)
    have hcount : a + ((b - a + 1).toNat : Int) = b + 1 := by omega
    unfold plotLine
    rw [Int.sub_self, Int.natAbs_zero, Int.ofNat_zero, mem_lineLoop_iff herr, hcount]
    simp only [Int.lt_add_one_iff]
  unfold orderLine
  split
  · next hgt =>
    rw [hplot x1 x0 (by omega), Int.min_eq_right (by omega), Int.max_eq_left (by omega)]
  · next hle =>
    rw [hplot x0 x1 (by omega), Int.min_eq_left (by omega), Int.max_eq_right (by omega)]

/-- A vertical line is the pixels between its ends, in either order. -/
theorem mem_writeLine_iff (x y0 y1 : Int) (p : Int × Int) :
    p ∈ writeLine x y0 x y1 ↔ p.1 = x ∧ min y0 y1 ≤ p.2 ∧ p.2 ≤ max y0 y1 := by
  obtain ⟨px, py⟩ := p
  unfold writeLine
  split
  · rw [mem_orderLine_iff]
    simp only [if_true, Prod.mk.injEq]
    constructor
    · rintro ⟨k, hge, hle, rfl, rfl⟩
      exact ⟨rfl, hge, hle⟩
    · rintro ⟨rfl, hge, hle⟩
      exact ⟨py, hge, hle, rfl, rfl⟩
  · next hflat =>
    obtain rfl : y0 = y1 := by omega
    rw [mem_orderLine_iff]
    simp only [Bool.false_eq_true, if_false, Prod.mk.injEq, Int.min_self, Int.max_self]
    constructor
    · rintro ⟨k, hge, hle, rfl, rfl⟩
      exact ⟨Int.le_antisymm hle hge, Int.le_refl _, Int.le_refl _⟩
    · rintro ⟨rfl, hge, hle⟩
      exact ⟨px, Int.le_refl _, Int.le_refl _, rfl, Int.le_antisymm hle hge⟩

/-- A column lights, in its place, the rows from its start to row 63, or only row
63 if its height is not positive. -/
theorem mem_pixels_iff (i : Fin rssiHistory) (value : Int) (p : Int × Int) :
    p ∈ (column i value).pixels ↔
      p.1 = i ∧ 0 ≤ p.2 ∧ p.2 ≤ 63 ∧ (64 - (column i value).height ≤ p.2 ∨ p.2 = 63) := by
  obtain ⟨px, py⟩ := p
  have hi : (i : Nat) < 128 := i.isLt
  unfold Column.pixels drawFastVLine
  rw [List.mem_filter, mem_writeLine_iff]
  simp only [onDisplay, decide_eq_true_eq, column, graphY, graphHeight]
  generalize map value minRSSI maxRSSI 0 30 = height
  omega

/-! ## 2. The history -/

/-- A call that finds the station connected takes its reading into the history. -/
theorem displayRSSIGraph_data (d : RssiData) (a : Answer) :
    (displayRSSIGraph d a).1 =
      Machine.run SlidingWindow.push d (a.reading.toList.map Reading.dBm) := by
  cases a <;> rfl

theorem run_data (d : RssiData) (as : List Answer) :
    Machine.run (fun d a => (displayRSSIGraph d a).1) d as =
      Machine.run SlidingWindow.push d ((readings as).map Reading.dBm) := by
  induction as generalizing d with
  | nil => rfl
  | cons a as ih =>
    rw [Machine.run_cons, ih, displayRSSIGraph_data, ← Machine.run_append, ← List.map_append]
    cases a <;> rfl

/-- After any calls the array holds the last 128 readings, after as many values
of `initRSSIData` as are still missing. -/
theorem graph_shows_history (as : List Answer) :
    List.ofFn (Machine.run (fun d a => (displayRSSIGraph d a).1) initRSSIData as) =
      (List.replicate rssiHistory minRSSI ++ (readings as).map Reading.dBm).drop
        (readings as).length := by
  have hinit : List.ofFn initRSSIData = List.replicate rssiHistory minRSSI := by
    unfold initRSSIData
    rw [List.ofFn_const]
  rw [run_data, SlidingWindow.ofFn_run_push, List.length_map, hinit]

/-! ## 3. The area -/

/-- What `map` makes of a value: 30 rows for 40 dBm, rounded towards zero. -/
theorem height_eq (i : Fin rssiHistory) (value : Int) :
    (column i value).height =
      if -90 ≤ value then (value + 90) * 30 / 40 else -((-90 - value) * 30 / 40) := by
  have hmap : (column i value).height = ((value + 90) * 30).tdiv 40 := Int.add_zero _
  rw [hmap]
  split
  · exact Int.tdiv_eq_ediv_of_nonneg (by omega)
  · have hflip : (value + 90) * 30 = -((-90 - value) * 30) := by omega
    rw [hflip, Int.neg_tdiv, Int.tdiv_eq_ediv_of_nonneg (by omega)]

theorem height_bounds (i : Fin rssiHistory) (value : Int) :
    (0 ≤ (column i value).height ↔ -91 ≤ value) ∧
      ((column i value).height ≤ graphHeight ↔ value ≤ -49) := by
  rw [height_eq, graphHeight]
  split <;> omega

theorem inRows_iff (i : Fin rssiHistory) (value : Int) :
    (column i value).InRows ↔ (column i value).height ≤ graphHeight := by
  unfold Column.InRows graphHeight
  simp only [mem_pixels_iff]
  constructor
  · intro h
    by_contra hgt
    -- the row above the area is lit
    have hrow := h (i, 33) ⟨rfl, by omega, by omega, by omega⟩
    omega
  · rintro hle p ⟨-, -, hlast, hrows⟩
    omega

theorem frame_iff {P : Column → Prop} (d : RssiData) (ssid : Bytes) (r : Reading) :
    (∀ c ∈ (displayRSSIGraph d (.connected ssid r)).2.columns, P c) ↔
      ∀ i, P (column i (SlidingWindow.push d r.dBm i)) := by
  simp [displayRSSIGraph]

/-- A property of columns that the value in them decides: it holds of all columns
of all frames exactly when all readings have it. -/
theorem frames_iff {P : Column → Prop} {Q : Int → Prop} (hcolumn : ∀ i v, P (column i v) ↔ Q v)
    {d : RssiData} (hd : ∀ i, Q (d i)) (as : List Answer) :
    (∀ f ∈ frames d as, ∀ c ∈ f.columns, P c) ↔ ∀ r ∈ readings as, Q r.dBm := by
  induction as generalizing d with
  | nil => simp [frames, readings]
  | cons a as ih =>
    rw [frames, List.forall_mem_cons]
    cases a with
    | notConnected =>
      simp only [displayRSSIGraph, List.not_mem_nil, false_imp_iff, implies_true, true_and]
      exact ih hd
    | connected ssid r =>
      have hreadings : readings (.connected ssid r :: as) = r :: readings as := rfl
      rw [frame_iff, hreadings, List.forall_mem_cons]
      simp only [hcolumn]
      constructor
      · rintro ⟨hframe, hrest⟩
        have hr : Q r.dBm := by
          have hlast := hframe (Fin.last 127)
          rwa [SlidingWindow.push_last] at hlast
        exact ⟨hr, (ih (SlidingWindow.forall_push hd hr)).mp hrest⟩
      · rintro ⟨hr, hrest⟩
        have hnext := SlidingWindow.forall_push hd hr
        exact ⟨hnext, (ih hnext).mpr hrest⟩

/-- The heights that readings can have, so that no argument of `drawFastVLine`
leaves the range of `int16_t`. -/
theorem frames_fit (as : List Answer) :
    ∀ f ∈ frames initRSSIData as, ∀ c ∈ f.columns, -27 ≤ c.height ∧ c.height ≤ 67 := by
  have hcolumn : ∀ i v, (-27 ≤ (column i v).height ∧ (column i v).height ≤ 67) ↔
      -128 < v ∧ v ≤ 0 := by
    intro i v
    rw [height_eq]
    split <;> omega
  have hinit : ∀ i, -128 < initRSSIData i ∧ initRSSIData i ≤ 0 :=
    fun _ => (by decide : -128 < minRSSI ∧ minRSSI ≤ 0)
  have hframes := frames_iff (P := fun c => -27 ≤ c.height ∧ c.height ≤ 67) hcolumn hinit as
  exact hframes.mpr fun r _ => ⟨Int.lt_of_lt_of_le (by decide) r.ge, r.le⟩

/-- A column is drawn above the area, over the texts, exactly when a reading is
above -49 dBm. -/
theorem rows_iff (as : List Answer) :
    (∀ f ∈ frames initRSSIData as, ∀ c ∈ f.columns, c.InRows) ↔
      ∀ r ∈ readings as, r.dBm ≤ -49 :=
  frames_iff (fun i v => (inRows_iff i v).trans (height_bounds i v).2)
    (fun _ => (by decide : minRSSI ≤ -49)) as

/-- The columns of all frames lie in the area exactly when all readings are
between -91 and -49 dBm. -/
theorem inArea_iff (as : List Answer) :
    (∀ f ∈ frames initRSSIData as, f.InArea) ↔
      ∀ r ∈ readings as, -91 ≤ r.dBm ∧ r.dBm ≤ -49 := by
  have hcolumn : ∀ i v, ((0 ≤ (column i v).height ∧ (column i v).height ≤ graphHeight) ∧
      (column i v).InRows) ↔ -91 ≤ v ∧ v ≤ -49 := by
    intro i v
    rw [inRows_iff, (height_bounds i v).1, (height_bounds i v).2]
    omega
  have hinit : ∀ i, -91 ≤ initRSSIData i ∧ initRSSIData i ≤ -49 :=
    fun _ => (by decide : -91 ≤ minRSSI ∧ minRSSI ≤ -49)
  have hframes := frames_iff
    (P := fun c => (0 ≤ c.height ∧ c.height ≤ graphHeight) ∧ c.InRows) hcolumn hinit as
  refine Iff.trans ?_ hframes
  refine forall_congr' fun f => imp_congr_right fun _ => ?_
  exact ⟨fun h c hc => ⟨h.height c hc, h.rows c hc⟩,
    fun h => ⟨fun c hc => (h c hc).1, fun c hc => (h c hc).2⟩⟩

/-- A strong signal of -30 dBm, the first reading: its column has 45 rows and goes
over the texts; a weak one of -100 dBm has a column of -7. -/
theorem outside_area :
    column (Fin.last 127) (-30) = ⟨127, 19, 45⟩ ∧ column (Fin.last 127) (-100) = ⟨127, 71, -7⟩ ∧
      (127, 26) ∈ (column (Fin.last 127) (-30)).pixels ∧
      ¬ ∀ as : List Answer, ∀ f ∈ frames initRSSIData as, f.InArea := by
  refine ⟨by decide, by decide, ?_, fun h => ?_⟩
  · rw [mem_pixels_iff]
    decide
  · have hframe := h [.connected [] ⟨-30, by decide, by decide⟩] _ List.mem_cons_self
    have hcolumns := (frame_iff initRSSIData [] ⟨-30, by decide, by decide⟩).mp hframe.height
    have hlast := (hcolumns (Fin.last 127)).2
    rw [SlidingWindow.push_last] at hlast
    exact absurd hlast (by decide)

end RssiGraph

end Handheld
