import Mathlib.Data.List.Basic

/-!
# A list cursor with a window of three rows

The screen shows at most three entries of a list from `top` on; `selected` is
the entry marked. `up` and `down` move the mark by one entry and the window
with it, as far as needed.

* `InWindow.up`, `InWindow.down`: the mark stays in the window; `InWindow.upRound`,
  `InWindow.downRound`: also where it goes round at the ends of the list.
* `Cursor.OnList`: mark and window are on a list of a given length, which all moves keep.
* `selected_upRound`, `selected_downRound`: going round is counting modulo the length.
* `CursorIn`: cursors whose mark is in a list of a given length.
* `mem_rows_iff`: the entries drawn; `selected_mem_rows`: the marked entry is
  among them as long as it is in the list.
-/

namespace ListCursor

structure Cursor where
  selected : Int
  top : Int
deriving DecidableEq, Repr

def Cursor.start : Cursor := ⟨0, 0⟩

def Cursor.up (c : Cursor) : Cursor :=
  if c.selected > 0 then
    ⟨c.selected - 1, if c.selected - 1 < c.top then c.top - 1 else c.top⟩
  else c

def Cursor.down (count : Int) (c : Cursor) : Cursor :=
  if c.selected < count - 1 then
    ⟨c.selected + 1, if c.selected + 1 ≥ c.top + 3 then c.top + 1 else c.top⟩
  else c

/-- Up by one, and from the first entry to the last. -/
def Cursor.upRound (count : Int) (c : Cursor) : Cursor :=
  let c :=
    if c.selected > 0 then { c with selected := c.selected - 1 }
    else ⟨count - 1, if count - 1 - 2 < 0 then 0 else count - 1 - 2⟩
  if c.selected < c.top then { c with top := c.top - 1 } else c

/-- Down by one, and from the last entry to the first. -/
def Cursor.downRound (count : Int) (c : Cursor) : Cursor :=
  let c := if c.selected < count - 1 then { c with selected := c.selected + 1 } else .start
  if c.selected ≥ c.top + 3 then { c with top := c.top + 1 } else c

/-- The indices of the entries drawn. -/
def Cursor.rows (count : Int) (c : Cursor) : List Int :=
  [c.top, c.top + 1, c.top + 2].takeWhile (· < count)

/-- The mark is in the window. -/
structure Cursor.InWindow (c : Cursor) : Prop where
  top_nonneg : 0 ≤ c.top
  top_le : c.top ≤ c.selected
  le_top : c.selected ≤ c.top + 2

theorem inWindow_start : Cursor.start.InWindow := ⟨by decide, by decide, by decide⟩

theorem Cursor.InWindow.up {c : Cursor} (h : c.InWindow) : c.up.InWindow := by
  obtain ⟨hnonneg, htop, hle⟩ := h
  unfold Cursor.up
  split
  · constructor <;> (simp only; split <;> omega)
  · exact ⟨hnonneg, htop, hle⟩

theorem Cursor.InWindow.down {c : Cursor} (h : c.InWindow) (count : Int) :
    (c.down count).InWindow := by
  obtain ⟨hnonneg, htop, hle⟩ := h
  unfold Cursor.down
  split
  · constructor <;> (simp only; split <;> omega)
  · exact ⟨hnonneg, htop, hle⟩

theorem Cursor.selected_up_le (c : Cursor) : c.up.selected ≤ c.selected := by
  unfold Cursor.up
  split
  · simp only
    omega
  · exact Int.le_refl _

theorem Cursor.selected_down_lt {c : Cursor} {count n : Int} (h : c.selected < n)
    (hcount : count ≤ n) : (c.down count).selected < n := by
  unfold Cursor.down
  split
  · simp only
    omega
  · exact h

theorem Cursor.upRound_of_pos {c : Cursor} (h : 0 < c.selected) (count : Int) :
    c.upRound count = c.up := by
  unfold Cursor.upRound Cursor.up
  rw [if_pos h, if_pos h]
  dsimp only
  split <;> rfl

theorem Cursor.upRound_of_first {c : Cursor} (h : ¬ 0 < c.selected) {count : Int}
    (hcount : 0 < count) : c.upRound count = ⟨count - 1, max 0 (count - 3)⟩ := by
  have htop : (if count - 1 - 2 < 0 then 0 else count - 1 - 2) = max 0 (count - 3) := by
    split <;> omega
  unfold Cursor.upRound
  rw [if_neg h, htop]
  exact if_neg (show ¬ count - 1 < max 0 (count - 3) by omega)

theorem Cursor.downRound_of_lt {c : Cursor} {count : Int} (h : c.selected < count - 1) :
    c.downRound count = c.down count := by
  unfold Cursor.downRound Cursor.down
  rw [if_pos h, if_pos h]
  dsimp only
  split <;> rfl

theorem Cursor.downRound_of_last {c : Cursor} {count : Int} (h : ¬ c.selected < count - 1) :
    c.downRound count = .start := by
  unfold Cursor.downRound
  rw [if_neg h]
  rfl

theorem Cursor.InWindow.upRound {c : Cursor} (h : c.InWindow) {count : Int} (hcount : 0 < count) :
    (c.upRound count).InWindow := by
  rcases Int.lt_or_le 0 c.selected with hpos | hfirst
  · rw [upRound_of_pos hpos]
    exact h.up
  · rw [upRound_of_first (Int.not_lt.mpr hfirst) hcount]
    have htop : max 0 (count - 3) ≤ count - 1 := Int.max_le.mpr ⟨by omega, by omega⟩
    have hle : count - 3 ≤ max 0 (count - 3) := Int.le_max_right 0 (count - 3)
    exact ⟨Int.le_max_left 0 (count - 3), htop, show count - 1 ≤ max 0 (count - 3) + 2 by omega⟩

theorem Cursor.InWindow.downRound {c : Cursor} (h : c.InWindow) (count : Int) :
    (c.downRound count).InWindow := by
  rcases Int.lt_or_le c.selected (count - 1) with hlt | hlast
  · rw [downRound_of_lt hlt]
    exact h.down count
  · rw [downRound_of_last (Int.not_lt.mpr hlast)]
    exact inWindow_start

theorem Cursor.selected_upRound_lt {c : Cursor} {count : Int} (h : c.selected < count)
    (hcount : 0 < count) : (c.upRound count).selected < count := by
  rcases Int.lt_or_le 0 c.selected with hpos | hfirst
  · rw [upRound_of_pos hpos]
    exact Int.lt_of_le_of_lt c.selected_up_le h
  · rw [upRound_of_first (Int.not_lt.mpr hfirst) hcount]
    exact Int.sub_lt_self count Int.one_pos

theorem Cursor.selected_downRound_lt {c : Cursor} {count : Int} (h : c.selected < count)
    (hcount : 0 < count) : (c.downRound count).selected < count := by
  rcases Int.lt_or_le c.selected (count - 1) with hlt | hlast
  · rw [downRound_of_lt hlt]
    exact selected_down_lt h (Int.le_refl count)
  · rw [downRound_of_last (Int.not_lt.mpr hlast)]
    exact hcount

/-! ## On a list -/

/-- The mark is in the window and on the list, and the window is not past its end. -/
structure Cursor.OnList (count : Int) (c : Cursor) : Prop extends Cursor.InWindow c where
  lt : c.selected < count
  top_le_last : c.top ≤ max 0 (count - 3)

theorem Cursor.OnList.selected_nonneg {count : Int} {c : Cursor} (h : c.OnList count) :
    0 ≤ c.selected := Int.le_trans h.top_nonneg h.top_le

theorem onList_start {count : Int} (hcount : 0 < count) : Cursor.start.OnList count :=
  ⟨inWindow_start, hcount, Int.le_max_left 0 (count - 3)⟩

theorem Cursor.top_up_le (c : Cursor) : c.up.top ≤ c.top := by
  unfold Cursor.up
  split
  · simp only
    split <;> omega
  · exact Int.le_refl _

/-- The window follows the mark, so it stays on the list. -/
theorem Cursor.top_down_le {c : Cursor} {count : Int} (h : c.top ≤ max 0 (count - 3)) :
    (c.down count).top ≤ max 0 (count - 3) := by
  unfold Cursor.down
  split
  · next hlt =>
    have hlast : count - 3 ≤ max 0 (count - 3) := Int.le_max_right 0 (count - 3)
    simp only
    split <;> omega
  · exact h

section OnList

variable {count : Int} {c : Cursor}

theorem Cursor.OnList.up (h : c.OnList count) : c.up.OnList count :=
  ⟨h.toInWindow.up, Int.lt_of_le_of_lt c.selected_up_le h.lt, Int.le_trans c.top_up_le h.top_le_last⟩

theorem Cursor.OnList.down (h : c.OnList count) : (c.down count).OnList count :=
  ⟨h.toInWindow.down count, selected_down_lt h.lt (Int.le_refl count), top_down_le h.top_le_last⟩

theorem Cursor.OnList.upRound (h : c.OnList count) : (c.upRound count).OnList count := by
  have hcount : 0 < count := Int.lt_of_le_of_lt h.selected_nonneg h.lt
  refine ⟨h.toInWindow.upRound hcount, selected_upRound_lt h.lt hcount, ?_⟩
  rcases Int.lt_or_le 0 c.selected with hpos | hfirst
  · rw [upRound_of_pos hpos]
    exact h.up.top_le_last
  · exact Int.le_of_eq (congrArg Cursor.top (upRound_of_first (Int.not_lt.mpr hfirst) hcount))

theorem Cursor.OnList.downRound (h : c.OnList count) : (c.downRound count).OnList count := by
  have hcount : 0 < count := Int.lt_of_le_of_lt h.selected_nonneg h.lt
  rcases Int.lt_or_le c.selected (count - 1) with hlt | hlast
  · rw [downRound_of_lt hlt]
    exact h.down
  · rw [downRound_of_last (Int.not_lt.mpr hlast)]
    exact onList_start hcount

/-- The mark goes up by one, but not past the first entry. -/
theorem Cursor.selected_up (c : Cursor) :
    c.up.selected = if 0 < c.selected then c.selected - 1 else c.selected := by
  unfold Cursor.up
  split <;> rfl

/-- The mark goes down by one, but not past the last entry. -/
theorem Cursor.selected_down (count : Int) (c : Cursor) :
    (c.down count).selected = if c.selected < count - 1 then c.selected + 1 else c.selected := by
  unfold Cursor.down
  split <;> rfl

/-- One back in a cycle. -/
theorem pred_round {i n : Int} (h0 : 0 ≤ i) (hn : i < n) :
    (if 0 < i then i - 1 else n - 1) = (i - 1) % n := by
  split
  · exact (Int.emod_eq_of_lt (by omega) (by omega)).symm
  · rw [← Int.add_emod_right, Int.emod_eq_of_lt (by omega) (by omega)]
    omega

/-- One on in a cycle. -/
theorem succ_round {i n : Int} (h0 : 0 ≤ i) (hn : i < n) :
    (if i < n - 1 then i + 1 else 0) = (i + 1) % n := by
  split
  · exact (Int.emod_eq_of_lt (by omega) (by omega)).symm
  · obtain rfl : n = i + 1 := by omega
    exact Int.emod_self.symm

theorem Cursor.OnList.selected_upRound (h : c.OnList count) :
    (c.upRound count).selected = (c.selected - 1) % count := by
  have hcount : 0 < count := Int.lt_of_le_of_lt h.selected_nonneg h.lt
  rw [← pred_round h.selected_nonneg h.lt]
  rcases Int.lt_or_le 0 c.selected with hpos | hfirst
  · rw [upRound_of_pos hpos, selected_up, if_pos hpos, if_pos hpos]
  · rw [upRound_of_first (Int.not_lt.mpr hfirst) hcount, if_neg (Int.not_lt.mpr hfirst)]

theorem Cursor.OnList.selected_downRound (h : c.OnList count) :
    (c.downRound count).selected = (c.selected + 1) % count := by
  rw [← succ_round h.selected_nonneg h.lt]
  rcases Int.lt_or_le c.selected (count - 1) with hlt | hlast
  · rw [downRound_of_lt hlt, selected_down, if_pos hlt, if_pos hlt]
  · rw [downRound_of_last (Int.not_lt.mpr hlast), if_neg (Int.not_lt.mpr hlast)]
    rfl

end OnList

/-! ## Cursors of a list -/

/-- A cursor whose mark is in a list of `count` entries. -/
structure CursorIn (count : Nat) extends Cursor where
  nonneg : 0 ≤ selected
  lt : selected < count

namespace CursorIn

variable {count : Nat}

def start (h : 0 < count) : CursorIn count := ⟨.start, Int.le_refl 0, Int.ofNat_lt.mpr h⟩

def up (c : CursorIn count) : CursorIn count where
  toCursor := c.toCursor.up
  nonneg := by
    have hnonneg := c.nonneg
    unfold Cursor.up
    split
    · simp only
      omega
    · exact hnonneg
  lt := Int.lt_of_le_of_lt c.toCursor.selected_up_le c.lt

def down (c : CursorIn count) : CursorIn count where
  toCursor := c.toCursor.down count
  nonneg := by
    have hnonneg := c.nonneg
    unfold Cursor.down
    split
    · simp only
      omega
    · exact hnonneg
  lt := Cursor.selected_down_lt c.lt (Int.le_refl _)

/-- The place of the mark. -/
def index (c : CursorIn count) : Fin count := ⟨c.selected.toNat, (Int.toNat_lt c.nonneg).mpr c.lt⟩

@[simp] theorem start_toCursor (h : 0 < count) : (start h).toCursor = .start := rfl

@[simp] theorem down_toCursor (c : CursorIn count) : c.down.toCursor = c.toCursor.down count := rfl

end CursorIn

theorem Cursor.mem_rows_iff (count : Int) (c : Cursor) (i : Int) :
    i ∈ c.rows count ↔ c.top ≤ i ∧ i ≤ c.top + 2 ∧ i < count := by
  unfold Cursor.rows
  simp only [List.takeWhile_cons, List.takeWhile_nil, decide_eq_true_eq]
  constructor
  · intro h
    split at h <;> (try split at h) <;> (try split at h) <;> simp at h <;> omega
  · rintro ⟨htop, hle, hcount⟩
    rw [if_pos (by omega)]
    rcases (by omega : i = c.top ∨ i = c.top + 1 ∨ i = c.top + 2) with rfl | rfl | rfl
    · exact List.mem_cons_self
    · rw [if_pos (by omega)]
      simp
    · rw [if_pos (by omega), if_pos (by omega)]
      simp

/-- The marked entry is drawn exactly when it is in the list. -/
theorem Cursor.InWindow.selected_mem_rows_iff {c : Cursor} (h : c.InWindow) (count : Int) :
    c.selected ∈ c.rows count ↔ c.selected < count := by
  rw [Cursor.mem_rows_iff]
  exact ⟨fun hmem => hmem.2.2, fun hlt => ⟨h.top_le, h.le_top, hlt⟩⟩

end ListCursor
