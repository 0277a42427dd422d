import Mathlib.Algebra.Group.Int.Defs
import Handheld.MenuScroll
import Handheld.SdBrowser
import Handheld.WifiList

/-!
# The two list screens (`showWiFiList`, `showFileList`)

Both loops draw three rows from the start of the window on, mark one of them and
move the mark with 'A' and 'C'.

Results:
1. `Screen.Scrolling.turn`, `Browser.Scrolling.key`: what one turn does in each screen.
2. `lists_scroll`: in both screens the cursor is where the keys have moved it, the
   marked entry is among the rows drawn, every access is within the list, and the
   mark moves by one.
-/

namespace Handheld

open ByteString ListCursor

/-! ## Definitions -/

/-- The rows that `showFileList` draws, each with the flag whether it is marked. -/
def fileRows (fileList : List FileEntry) (c : Cursor) : List (Bool × Option FileEntry) :=
  (c.rows fileList.length).map fun i =>
    (i == c.selected, if 0 ≤ i then fileList[i.toNat]? else none)

/-- The key moves the mark by one, unless it is at the end it is pushed against. -/
structure Pushed (count : Int) (key : Key) (c d : Cursor) : Prop where
  up : key = .A → d.selected = if c.selected = 0 then 0 else c.selected - 1
  down : key = .C → d.selected = if c.selected = count - 1 then count - 1 else c.selected + 1

/-- What the answer of the keypad makes of the cursor. -/
def moved (count : Int) (c : Cursor) : Option Key → Cursor
  | some .A => c.up
  | some .C => c.down count
  | _ => c

/-- The cursor after what the keypad has answered, one answer in each turn. -/
def cursorAfter (count : Int) (keys : List (Option Key)) : Cursor := Machine.run (moved count) .start keys

/-- A turn of the loop of `showWiFiList`: the list is drawn, the keypad is read, and
the key is handled. -/
def Screen.turn (s : Screen) (press : Option Press) : Screen := ((s.go none).go press).go none

/-- In the list of networks that has been called from `s`: the cursor is on the
list, its entry is marked on the display, and only entries of the list have been used. -/
structure Screen.Scrolling (s t : Screen) (c : Cursor) (phase : Phase) : Prop where
  stack : t.stack = .list c phase :: s.stack
  store : t.store = s.store
  onList : c.OnList s.store.wifiCount
  marked : phase ≠ .draw → ∃ ssid, s.store.at_ c.selected = some ssid ∧ (true, some ssid) ∈ t.display
  used : ∃ us, t.used = s.used ++ us ∧ ∀ i ∈ us, 0 ≤ i ∧ i < s.store.wifiCount

/-- In the list of files: the cursor is on the list, its entry is marked, and all
rows are entries of the list. -/
structure Browser.Scrolling (b b' : Browser) (c : Cursor) : Prop where
  screen : b'.screen.map CursorIn.toCursor = some c
  globals : b'.toSdGlobals = b.toSdGlobals
  onList : c.OnList b.fileList.length
  marked : ∃ e, b.fileList[c.selected.toNat]? = some e ∧ (true, some e) ∈ fileRows b.fileList c
  rows : ∀ i ∈ c.rows b.fileList.length, 0 ≤ i ∧ i < b.fileList.length

/-! ## 1. One key -/

theorem pushed_up {count : Int} {c : Cursor} (h : c.OnList count) : Pushed count .A c c.up where
  up _ := by
    have hnonneg := h.selected_nonneg
    rw [Cursor.selected_up]
    split_ifs <;> omega
  down hkey := by cases hkey

theorem pushed_down {count : Int} {c : Cursor} (h : c.OnList count) :
    Pushed count .C c (c.down count) where
  up hkey := by cases hkey
  down _ := by
    have hlt := h.lt
    rw [Cursor.selected_down]
    split_ifs <;> omega

theorem pushed_moved {count : Int} {c : Cursor} (h : c.OnList count) {key : Key} (hkey : Scrolls key) :
    Pushed count key c (moved count c (some key)) := by
  rcases hkey with rfl | rfl
  · exact pushed_up h
  · exact pushed_down h

theorem cursorAfter_concat (count : Int) (keys : List (Option Key)) (key : Option Key) :
    cursorAfter count (keys ++ [key]) = moved count (cursorAfter count keys) key := Machine.run_concat ..

/-- The rows are entries of the list. -/
theorem rows_onList {count : Int} {c : Cursor} (h : c.OnList count) :
    ∀ i ∈ c.rows count, 0 ≤ i ∧ i < count := by
  intro i hi
  obtain ⟨htop, -, hlt⟩ := (Cursor.mem_rows_iff count c i).mp hi
  exact ⟨Int.le_trans h.top_nonneg htop, hlt⟩

/-! ### The list of networks -/

section networks

variable {s t : Screen} {c : Cursor}

/-- The call, with networks to show. -/
theorem Screen.scrolling_start (hpos : 1 ≤ s.store.wifiCount) :
    s.Scrolling s.showWiFiList .start .draw := by
  have hne : s.store.wifiCount ≠ 0 := by omega
  unfold showWiFiList
  rw [if_neg hne]
  exact ⟨rfl, rfl, onList_start hpos, fun h => absurd rfl h, [], (List.append_nil _).symm, by simp⟩

/-- A cursor that is on the list is drawn next. -/
theorem Screen.Scrolling.redraw {phase : Phase} (h : s.Scrolling t c phase) {d : Cursor}
    (hd : d.OnList s.store.wifiCount) :
    s.Scrolling { t with stack := .list d .draw :: s.stack } d .draw :=
  ⟨rfl, h.store, hd, fun hne => absurd rfl hne, h.used⟩

theorem Screen.Scrolling.draw (hcap : s.store.wifiCount ≤ maxWifiList) (h : s.Scrolling t c .draw)
    (press : Option Press) : s.Scrolling (t.go press) c .read := by
  rw [go_draw h.stack]
  have hlt : c.selected < maxWifiList := Int.lt_of_lt_of_le h.onList.lt hcap
  obtain ⟨j, -, hat⟩ := s.store.at_of_lt h.onList.selected_nonneg hlt
  obtain ⟨us, hus, hbounds⟩ := h.used
  refine ⟨rfl, h.store, h.onList, fun _ => ⟨_, hat, ?_⟩, us ++ c.rows s.store.wifiCount, ?_, ?_⟩
  · show _ ∈ rowsOf t.store c
    rw [h.store, marked_mem_rowsOf_iff _ h.onList.toInWindow]
    exact ⟨h.onList.lt, hat⟩
  · show t.used ++ c.rows t.store.wifiCount = _
    rw [hus, h.store, List.append_assoc]
  · intro i hi
    exact (List.mem_append.mp hi).elim (hbounds i) (rows_onList h.onList i)

theorem Screen.Scrolling.read (h : s.Scrolling t c .read) (press : Option Press) :
    s.Scrolling (t.go press) c (.handle (press.map Press.key)) := by
  rw [go_read h.stack]
  exact ⟨rfl, h.store, h.onList, fun _ => h.marked (by decide), h.used⟩

theorem Screen.Scrolling.handle {key : Option Key} (h : s.Scrolling t c (.handle key))
    (hkey : ∀ k, key = some k → Scrolls k) (press : Option Press) :
    s.Scrolling (t.go press) (moved s.store.wifiCount c key) .draw := by
  rw [go_handle h.stack]
  cases key with
  | none => exact h.redraw h.onList
  | some key =>
    rcases hkey key rfl with rfl | rfl
    · exact h.redraw h.onList.up
    · have hcount : t.store.wifiCount = s.store.wifiCount := congrArg ScanStore.wifiCount h.store
      show s.Scrolling { t with stack := .list (c.down t.store.wifiCount) .draw :: s.stack } _ _
      rw [hcount]
      exact h.redraw h.onList.down

/-- What a turn does with the answer of the keypad. -/
theorem Screen.Scrolling.turn (hcap : s.store.wifiCount ≤ maxWifiList) (h : s.Scrolling t c .draw)
    {press : Option Press} (hpress : ∀ p, press = some p → Scrolls p.key) :
    s.Scrolling (t.turn press) (moved s.store.wifiCount c (press.map Press.key)) .draw := by
  refine ((h.draw hcap none).read press).handle (fun k hk => ?_) none
  obtain ⟨p, hp, rfl⟩ := Option.map_eq_some_iff.mp hk
  exact hpress p hp

/-- Whatever the keys 'A' and 'C', the loop stays in the list. -/
theorem Screen.scrolling_run (hpos : 1 ≤ s.store.wifiCount) (hcap : s.store.wifiCount ≤ maxWifiList)
    {presses : List (Option Press)} (hpresses : ∀ p, some p ∈ presses → Scrolls p.key) :
    s.Scrolling (Machine.run Screen.turn s.showWiFiList presses)
      (cursorAfter s.store.wifiCount (presses.map (Option.map Press.key))) .draw := by
  induction presses using List.reverseRecOn with
  | nil => exact scrolling_start hpos
  | append_singleton presses press ih =>
    have h := ih fun p hp => hpresses p (List.mem_append_left _ hp)
    rw [Machine.run_concat, List.map_append, List.map_singleton, cursorAfter_concat]
    exact h.turn hcap fun p hp => hpresses p (by simp [hp])

end networks

/-! ### The list of files -/

section files

variable {b b' : Browser} {c : Cursor}

/-- A screen of the list `b.fileList` with the cursor `c`. -/
theorem Browser.scrolling_of (hscreen : b'.screen.map CursorIn.toCursor = some c)
    (hglobals : b'.toSdGlobals = b.toSdGlobals) (hc : c.OnList b.fileList.length) :
    b.Scrolling b' c := by
  have hlength : c.selected.toNat < b.fileList.length :=
    (Int.toNat_lt hc.selected_nonneg).mpr hc.lt
  have hget : b.fileList[c.selected.toNat]? = some b.fileList[c.selected.toNat] :=
    List.getElem?_eq_getElem hlength
  refine ⟨hscreen, hglobals, hc, ⟨_, hget, ?_⟩, rows_onList hc⟩
  refine List.mem_map.mpr ⟨c.selected, (hc.toInWindow.selected_mem_rows_iff _).mpr hc.lt, ?_⟩
  rw [beq_self_eq_true, if_pos hc.selected_nonneg, hget]

/-- What a key does in the loop. -/
theorem Browser.Scrolling.key (t : SdTree) (h : b.Scrolling b' c) {key : Key} (hkey : Scrolls key) :
    b.Scrolling (b'.step t (.key (some key))) (moved b.fileList.length c (some key)) := by
  obtain ⟨cursor, hscreen, rfl⟩ := Option.map_eq_some_iff.mp h.screen
  have hstep : ∀ k, b'.step t (.key k) = b'.handle t cursor k := by
    intro k
    unfold Browser.step
    rw [hscreen]
  have hlength : b'.fileList.length = b.fileList.length := by rw [h.globals]
  rw [hstep]
  rcases hkey with rfl | rfl
  · exact scrolling_of rfl h.globals h.onList.up
  · refine scrolling_of ?_ h.globals h.onList.down
    rw [← hlength]
    rfl

/-- Whatever the keys 'A' and 'C', the loop stays in the list. -/
theorem Browser.scrolling_run (t : SdTree) {h : 0 < b.fileList.length}
    (hscreen : b.screen = some (.start h)) {keys : List (Option Key)}
    (hkeys : ∀ key, some key ∈ keys → Scrolls key) :
    b.Scrolling (Machine.run (Browser.step t) b (keys.map .key)) (cursorAfter b.fileList.length keys) := by
  induction keys using List.reverseRecOn with
  | nil =>
    refine scrolling_of ?_ rfl (onList_start (Int.natCast_pos.mpr h))
    rw [List.map_nil, Machine.run_nil, hscreen]
    rfl
  | append_singleton keys key ih =>
    have hc := ih fun k hk => hkeys k (List.mem_append_left _ hk)
    rw [List.map_append, List.map_singleton, Machine.run_concat, cursorAfter_concat]
    cases key with
    | none =>
      have hstep : ∀ b' : Browser, b'.step t (.key none) = b' := by
        intro b'
        unfold Browser.step
        cases b'.screen <;> rfl
      rw [hstep]
      exact hc
    | some key => exact hc.key t (hkeys key (by simp))

end files

/-! ## 2. All keys -/

/-- `showFileList` compares an `int` with the unsigned size of the list. -/
theorem unsigned_tests {i : Int} {n : Nat} (h0 : 0 ≤ i) (hi : i < 2 ^ 32) (hpos : 1 ≤ n)
    (hn : n < 2 ^ 32) :
    (UInt32.ofInt i < UInt32.ofNat n - 1 ↔ i < n - 1) ∧
      (UInt32.ofInt i ≥ UInt32.ofNat n ↔ i ≥ n) := by
  have hnat : ∀ k : Nat, k < 2 ^ 32 → (UInt32.ofNat k).toNat = k := fun k hk =>
    UInt32.toNat_ofNat_of_lt' hk
  have hint : (UInt32.ofInt i).toNat = i.toNat := by
    rw [UInt32.ofInt, Int.emod_eq_of_lt h0 hi]
    exact hnat _ (by omega)
  have hpred : UInt32.ofNat n - 1 = UInt32.ofNat (n - 1) := (UInt32.ofNat_sub hpos).symm
  rw [hpred, UInt32.lt_iff_toNat_lt, ge_iff_le, UInt32.le_iff_toNat_le, hint, hnat n hn,
    hnat (n - 1) (by omega)]
  omega

/-- In a list of 1 to 10 networks, and in a list of any number of files: after any
turns with the keys 'A' and 'C' or none the cursor is where these keys move it, it
is on the list, its entry is drawn and marked in the next turn, all accesses are
within the list, and a key moves the mark by one, unless it is at the end it is
pushed against. -/
theorem lists_scroll :
    (∀ s : Screen, 1 ≤ s.store.wifiCount → s.store.wifiCount ≤ maxWifiList →
      ∀ presses : List (Option Press), (∀ p, some p ∈ presses → Scrolls p.key) →
        let t := Machine.run Screen.turn s.showWiFiList presses
        let c := cursorAfter s.store.wifiCount (presses.map (Option.map Press.key))
        s.Scrolling t c .draw ∧ s.Scrolling (t.go none) c .read ∧
          (∀ press : Option Press, s.Scrolling ((t.go none).go press) c (.handle (press.map Press.key))) ∧
          ∀ p : Press, Scrolls p.key →
            ∃ d, Pushed s.store.wifiCount p.key c d ∧ s.Scrolling (t.turn (some p)) d .draw) ∧
    (∀ (t : SdTree) (b : Browser) (h : 0 < b.fileList.length), b.screen = some (.start h) →
      ∀ keys : List (Option Key), (∀ key, some key ∈ keys → Scrolls key) →
        let b' := Machine.run (Browser.step t) b (keys.map .key)
        let c := cursorAfter b.fileList.length keys
        b.Scrolling b' c ∧ ∀ key, Scrolls key →
          ∃ d, Pushed b.fileList.length key c d ∧ b.Scrolling (b'.step t (.key (some key))) d) := by
  constructor
  · intro s hpos hcap presses hpresses t c
    have hc : s.Scrolling t c .draw := Screen.scrolling_run hpos hcap hpresses
    have hdrawn := hc.draw hcap none
    refine ⟨hc, hdrawn, fun press => hdrawn.read press, fun p hp => ?_⟩
    have hkey : ∀ q, some p = some q → Scrolls q.key := fun q hq => Option.some.inj hq ▸ hp
    exact ⟨_, pushed_moved hc.onList hp, hc.turn hcap hkey⟩
  · intro t b h hscreen keys hkeys b' c
    have hc : b.Scrolling b' c := Browser.scrolling_run t hscreen hkeys
    exact ⟨hc, fun key hkey => ⟨_, pushed_moved hc.onList hkey, hc.key t hkey⟩⟩

/-- Two networks after a scan, and two files on a card. -/
def twoScanned : Screen := ⟨ScanStore.boot.scan twoNetworks, [], .boot, [], [], [], []⟩
def twoFiles : Browser where
  fileList := [⟨ascii "a", ascii "a", false⟩, ⟨ascii "b", ascii "b", true⟩]
  currentPath := [slash]
  screen := some (.start (by decide))

theorem lists_scroll_two :
    (∃ d, Pushed 2 .C ⟨1, 0⟩ d ∧ twoScanned.Scrolling
      ((Machine.run Screen.turn twoScanned.showWiFiList [some ⟨.C, 0⟩, none]).turn (some ⟨.C, 5⟩)) d .draw) ∧
    ∃ d, Pushed 2 .A ⟨1, 0⟩ d ∧ twoFiles.Scrolling
      ((Machine.run (Browser.step nestedTree) twoFiles [.key (some .C)]).step nestedTree (.key (some .A))) d := by
  constructor
  · obtain ⟨-, -, -, hturn⟩ := lists_scroll.1 twoScanned (by decide) (by decide) [some ⟨.C, 0⟩, none]
      (by simp [Scrolls])
    exact hturn ⟨.C, 5⟩ (.inr rfl)
  · obtain ⟨-, hkey⟩ := lists_scroll.2 nestedTree twoFiles (by decide) rfl [some .C] (by simp [Scrolls])
    exact hkey .A (.inl rfl)

end Handheld
