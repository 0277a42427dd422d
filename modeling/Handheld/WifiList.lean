import Handheld.Keypad
import Handheld.ListCursor
import Mathlib.Logic.Function.Basic

/-!
# The list of scanned networks (`SettingWifi.h`)

A scan writes the global `wifiList` and `wifiCount`; `showWiFiList` draws the
list, reads a key and handles it, and opens the password screen on 'B'. The two
screens call each other, so the program is a stack of activations that takes one
step at a time, and a web scan may come between any two steps.

Results:
1. `wifiList_safe_iff`: with no scan in progress the list stays in the array and
   offers stored networks only, whatever the keys, exactly when the last scan
   reported between 0 and 10 networks.
2. `highlighted_iff_unchanged`: under scans at any points, what is selected is
   what is highlighted exactly when the scans since the last redraw left the
   marked place of the list as it was.
-/

namespace Handheld

open ByteString ListCursor

/-! ## Definitions -/

/-- `MAX_WIFI_LIST`. -/
abbrev maxWifiList : Nat := 10

/-- What `WiFi.scanNetworks()` returns and `WiFi.SSID(i)` then answers. -/
structure ScanResult where
  count : Int
  ssid : Nat → Bytes

/-- The globals that a scan writes. -/
structure ScanStore where
  wifiList : Fin maxWifiList → Bytes
  wifiCount : Int
  wifiIndex : Int
  wifiMenuIndex : Int

def ScanStore.boot : ScanStore := ⟨fun _ => [], 0, 0, 0⟩

/-- The stores of `scanWiFi` and of the web command `scan wifi`: the count as it
is, and the SSIDs with `i < wifiCount && i < MAX_WIFI_LIST`. -/
def ScanStore.scan (store : ScanStore) (r : ScanResult) : ScanStore where
  wifiList i := if (i : Int) < r.count then r.ssid i else store.wifiList i
  wifiCount := r.count
  wifiIndex := 0
  wifiMenuIndex := 0

/-- `wifiList[i]`, for an index in the array. -/
def ScanStore.at_ (store : ScanStore) (i : Int) : Option Bytes :=
  if h : i.toNat < maxWifiList ∧ 0 ≤ i then some (store.wifiList ⟨i.toNat, h.1⟩) else none

/-- Where the loop of `showWiFiList` is. -/
inductive Phase
  | draw
  | read
  | handle (key : Option Key)
deriving DecidableEq, Repr

/-- An activation of `showWiFiList` or of `enterWiFiPassword` (in `getTextInput`). -/
inductive Activation
  | list (cursor : Cursor) (phase : Phase)
  | password (ssid : Bytes)
deriving DecidableEq, Repr

/-- The program in the list and what it has done so far. A row on the display
comes with the flag whether it is marked `"> "`. -/
structure Screen where
  store : ScanStore
  stack : List Activation
  text : TextState
  display : List (Bool × Option Bytes)
  used : List Int
  offered : List Bytes
  connects : List (Bytes × Bytes)

/-- The call `showWiFiList()`: with no network it returns at once, and so do its callers. -/
def Screen.showWiFiList (s : Screen) : Screen :=
  if s.store.wifiCount = 0 then { s with stack := [] }
  else { s with stack := .list .start .draw :: s.stack }

/-- The rows drawn for a cursor. -/
def rowsOf (store : ScanStore) (c : Cursor) : List (Bool × Option Bytes) :=
  (c.rows store.wifiCount).map fun i => (i == c.selected, store.at_ i)

def Screen.draw (s : Screen) (c : Cursor) (rest : List Activation) : Screen :=
  { s with
    display := rowsOf s.store c
    used := s.used ++ c.rows s.store.wifiCount
    stack := .list c .read :: rest }

/-- The key is handled. After the password screen the list returns, and with it
every caller; an access outside the array ends the run. -/
def Screen.handle (s : Screen) (c : Cursor) (key : Option Key) (rest : List Activation) : Screen :=
  match key with
  | some .A => { s with stack := .list c.up .draw :: rest }
  | some .C => { s with stack := .list (c.down s.store.wifiCount) .draw :: rest }
  | some .B =>
    let s := { s with used := s.used ++ [c.selected] }
    match s.store.at_ c.selected with
    | some ssid =>
      { s with
        offered := s.offered ++ [ssid]
        text := s.text.reset
        stack := .password ssid :: .list c (.handle key) :: rest }
    | none => { s with stack := [] }
  | some .D => { s with stack := [] }
  | _ => { s with stack := .list c .draw :: rest }

/-- What `enterWiFiPassword` does with the text that `getTextInput` returns. -/
def Screen.submit (s : Screen) (ssid password : Bytes) : Screen :=
  if password = ascii "EXIT" then s.showWiFiList
  else { s with connects := s.connects ++ [(ssid, password)], stack := [] }

/-- A press in the password screen. -/
def Screen.typePassword (s : Screen) (ssid : Bytes) (p : Press) : Screen :=
  match p.key with
  | .B => s.submit ssid s.text.inputText
  | .D => s.submit ssid (ascii "EXIT")
  | _ => { s with text := pressKey s.text p }

/-- The next step of the program. `press` is what the keypad answers if it is read. -/
def Screen.go (s : Screen) (press : Option Press) : Screen :=
  match s.stack with
  | [] => s
  | .list c .draw :: rest => s.draw c rest
  | .list c .read :: rest => { s with stack := .list c (.handle (press.map Press.key)) :: rest }
  | .list c (.handle key) :: rest => s.handle c key rest
  | .password ssid :: _ =>
    match press with
    | some p => s.typePassword ssid p
    | none => s

/-- A step of the program, or a web scan as one atomic step. -/
inductive ScreenEvent
  | go (press : Option Press)
  | scan (r : ScanResult)

def Screen.step (s : Screen) : ScreenEvent → Screen
  | .go press => s.go press
  | .scan r => { s with store := s.store.scan r }

/-- `showWiFiList()` called from the menu after the scans. -/
def Screen.open_ (text : TextState) (scans : List ScanResult) : Screen :=
  Screen.showWiFiList ⟨scans.foldl ScanStore.scan .boot, [], text, [], [], [], []⟩

/-- The indices used are in the array, and the SSIDs offered are among those
that the scan reported and stored. -/
structure Safe (last : Option ScanResult) (s : Screen) : Prop where
  used : ∀ i ∈ s.used, 0 ≤ i ∧ i < maxWifiList
  offered : ∀ ssid ∈ s.offered, ∃ r ∈ last, ∃ i : Nat, (i : Int) < r.count ∧ i < maxWifiList ∧
    r.ssid i = ssid

/-! ## The array -/

theorem ScanStore.at_of_lt (store : ScanStore) {i : Int} (h0 : 0 ≤ i) (h : i < maxWifiList) :
    ∃ j : Fin maxWifiList, (j : Int) = i ∧ store.at_ i = some (store.wifiList j) := by
  have hi : i.toNat < maxWifiList ∧ 0 ≤ i := by omega
  exact ⟨⟨i.toNat, hi.1⟩, Int.toNat_of_nonneg h0, dif_pos hi⟩

/-- A place that the scan reported holds what it reported. -/
theorem ScanStore.at_scan (store : ScanStore) (r : ScanResult) {i : Int} (h0 : 0 ≤ i)
    (h : i < maxWifiList) (hcount : i < r.count) :
    (store.scan r).at_ i = some (r.ssid i.toNat) := by
  obtain ⟨j, hj, hat⟩ := (store.scan r).at_of_lt h0 h
  rw [hat]
  subst hj
  simp [ScanStore.scan, hcount]

/-! ## The loop of the list -/

section loop

variable {s : Screen} {c : Cursor} {rest : List Activation}

theorem go_nil (h : s.stack = []) (press : Option Press) : s.go press = s := by
  unfold Screen.go
  rw [h]

theorem run_of_stopped (h : s.stack = []) (keys : List (Option Press)) :
    Machine.run Screen.go s keys = s := by
  induction keys with
  | nil => rfl
  | cons key keys ih => rw [Machine.run_cons, go_nil h, ih]

theorem go_draw (h : s.stack = .list c .draw :: rest) (press : Option Press) :
    s.go press = s.draw c rest := by
  unfold Screen.go
  rw [h]

theorem go_read (h : s.stack = .list c .read :: rest) (press : Option Press) :
    s.go press = { s with stack := .list c (.handle (press.map Press.key)) :: rest } := by
  unfold Screen.go
  rw [h]

theorem go_handle {key : Option Key} (h : s.stack = .list c (.handle key) :: rest)
    (press : Option Press) : s.go press = s.handle c key rest := by
  unfold Screen.go
  rw [h]

/-- The list is drawn, the key is read and handled. -/
theorem run_listKey (h : s.stack = .list c .draw :: rest) (p : Press) :
    Machine.run Screen.go s [none, some p, none] =
      ({ s.draw c rest with stack := .list c (.handle (some p.key)) :: rest } : Screen).handle c
        (some p.key) rest := by
  rw [Machine.run_cons, go_draw h, Machine.run_cons, go_read rfl, Machine.run_cons, go_handle rfl]
  rfl

/-- 'B' on a place in the array opens the password screen. -/
theorem handle_B {ssid : Bytes} (h : s.store.at_ c.selected = some ssid)
    (rest : List Activation) :
    s.handle c (some .B) rest =
      { s with
        used := s.used ++ [c.selected]
        offered := s.offered ++ [ssid]
        text := s.text.reset
        stack := .password ssid :: .list c (.handle (some .B)) :: rest } := by
  unfold Screen.handle
  simp only [h]

/-- The list is drawn, and 'B' is read and handled. -/
theorem run_select (h : s.stack = .list c .draw :: rest) {p : Press} (hp : p.key = .B) {ssid : Bytes}
    (hat : s.store.at_ c.selected = some ssid) :
    Machine.run Screen.go s [none, some p, none] =
      { s.draw c rest with
        used := (s.draw c rest).used ++ [c.selected]
        offered := s.offered ++ [ssid]
        text := s.text.reset
        stack := .password ssid :: .list c (.handle (some .B)) :: rest } := by
  rw [run_listKey h, hp]
  exact handle_B (s := { s.draw c rest with stack := .list c (.handle (some .B)) :: rest }) hat rest

end loop

/-! ## 1. No scan in progress -/

/-- An activation whose cursor is in the list that the scan reported. -/
def Activation.Within (count : Int) : Activation → Prop
  | .list c _ => c.InWindow ∧ c.selected < count
  | .password _ => True

/-- The program in a list that the last scan `r` filled. -/
structure Browsing (r : ScanResult) (s : Screen) : Prop where
  count : s.store.wifiCount = r.count
  stored : ∀ i, 0 ≤ i → i < r.count → s.store.at_ i = some (r.ssid i.toNat)
  within : ∀ a ∈ s.stack, a.Within r.count

section Browsing

variable {r : ScanResult} {s : Screen}

theorem browsing_showWiFiList (hnonneg : 0 ≤ r.count) (h : Browsing r s) :
    Browsing r s.showWiFiList := by
  obtain ⟨hcount, hstored, hwithin⟩ := h
  unfold Screen.showWiFiList
  split
  · exact ⟨hcount, hstored, fun a ha => absurd ha List.not_mem_nil⟩
  · next hne =>
    refine ⟨hcount, hstored, fun a ha => ?_⟩
    rcases List.mem_cons.mp ha with rfl | ha
    · refine ⟨inWindow_start, ?_⟩
      show 0 < r.count
      omega
    · exact hwithin a ha

theorem showWiFiList_logs (s : Screen) :
    s.showWiFiList.used = s.used ∧ s.showWiFiList.offered = s.offered := by
  unfold Screen.showWiFiList
  split <;> exact ⟨rfl, rfl⟩

/-- Replacing the top activation by one that is within the list. -/
theorem browsing_replace (h : Browsing r s) {a b : Activation} {rest : List Activation}
    (hstack : s.stack = a :: rest) (hb : b.Within r.count) :
    ∀ x ∈ b :: rest, x.Within r.count := by
  intro x hx
  rcases List.mem_cons.mp hx with rfl | hx
  · exact hb
  · exact h.within x (hstack ▸ List.mem_cons_of_mem a hx)

theorem browsing_handle (hcap : r.count ≤ maxWifiList) (h : Browsing r s)
    (hsafe : Safe (some r) s) {c : Cursor} {key : Option Key} {rest : List Activation}
    (hstack : s.stack = .list c (.handle key) :: rest) :
    Browsing r (s.handle c key rest) ∧ Safe (some r) (s.handle c key rest) := by
  obtain ⟨hwin, hlt⟩ : c.InWindow ∧ c.selected < r.count :=
    h.within (.list c (.handle key)) (by simp [hstack])
  have hnonneg : 0 ≤ c.selected := Int.le_trans hwin.top_nonneg hwin.top_le
  have hempty : ∀ a ∈ ([] : List Activation), a.Within r.count := by simp
  unfold Screen.handle
  split
  · have hup : c.up.selected < r.count := Int.lt_of_le_of_lt c.selected_up_le hlt
    exact ⟨⟨h.count, h.stored, browsing_replace h hstack ⟨hwin.up, hup⟩⟩, ⟨hsafe.used, hsafe.offered⟩⟩
  · have hdown : (c.down s.store.wifiCount).selected < r.count :=
      Cursor.selected_down_lt hlt (Int.le_of_eq h.count)
    exact ⟨⟨h.count, h.stored, browsing_replace h hstack ⟨hwin.down _, hdown⟩⟩,
      ⟨hsafe.used, hsafe.offered⟩⟩
  · have hused : ∀ i ∈ s.used ++ [c.selected], 0 ≤ i ∧ i < maxWifiList := by
      intro i hi
      rcases List.mem_append.mp hi with hi | hi
      · exact hsafe.used i hi
      · obtain rfl := List.mem_singleton.mp hi
        exact ⟨hnonneg, Int.lt_of_lt_of_le hlt hcap⟩
    simp only [h.stored _ hnonneg hlt]
    refine ⟨⟨h.count, h.stored, fun a ha => ?_⟩, ⟨hused, fun ssid hssid => ?_⟩⟩
    · rcases List.mem_cons.mp ha with rfl | ha
      · trivial
      · exact h.within a (hstack ▸ ha)
    · rcases List.mem_append.mp hssid with hssid | hssid
      · exact hsafe.offered ssid hssid
      · obtain rfl := List.mem_singleton.mp hssid
        exact ⟨r, rfl, c.selected.toNat, by omega, by omega, rfl⟩
  · exact ⟨⟨h.count, h.stored, hempty⟩, ⟨hsafe.used, hsafe.offered⟩⟩
  · exact ⟨⟨h.count, h.stored, browsing_replace h hstack ⟨hwin, hlt⟩⟩, ⟨hsafe.used, hsafe.offered⟩⟩

theorem browsing_submit (hnonneg : 0 ≤ r.count) (h : Browsing r s) (hsafe : Safe (some r) s)
    (ssid password : Bytes) :
    Browsing r (s.submit ssid password) ∧ Safe (some r) (s.submit ssid password) := by
  unfold Screen.submit
  split
  · obtain ⟨hused, hoffered⟩ := showWiFiList_logs s
    exact ⟨browsing_showWiFiList hnonneg h, ⟨hused ▸ hsafe.used, hoffered ▸ hsafe.offered⟩⟩
  · exact ⟨⟨h.count, h.stored, fun a ha => absurd ha List.not_mem_nil⟩,
      ⟨hsafe.used, hsafe.offered⟩⟩

/-- A step keeps the cursor in the list, so what it uses and offers is safe. -/
theorem browsing_go (hnonneg : 0 ≤ r.count) (hcap : r.count ≤ maxWifiList) (h : Browsing r s)
    (hsafe : Safe (some r) s) (press : Option Press) :
    Browsing r (s.go press) ∧ Safe (some r) (s.go press) := by
  unfold Screen.go
  split
  · exact ⟨h, hsafe⟩
  · next c rest hstack =>
    have hwithin : (Activation.list c .draw).Within r.count := h.within _ (by simp [hstack])
    refine ⟨⟨h.count, h.stored, browsing_replace h hstack hwithin⟩, ⟨fun i hi => ?_, hsafe.offered⟩⟩
    rcases List.mem_append.mp hi with hi | hi
    · exact hsafe.used i hi
    · obtain ⟨htop, -, hlt⟩ := (Cursor.mem_rows_iff _ c i).mp hi
      rw [h.count] at hlt
      exact ⟨Int.le_trans hwithin.1.top_nonneg htop, Int.lt_of_lt_of_le hlt hcap⟩
  · next c rest hstack =>
    have hwithin : (Activation.list c .read).Within r.count := h.within _ (by simp [hstack])
    exact ⟨⟨h.count, h.stored, browsing_replace h hstack hwithin⟩, ⟨hsafe.used, hsafe.offered⟩⟩
  · next c key rest hstack => exact browsing_handle hcap h hsafe hstack
  · next ssid rest hstack =>
    cases press with
    | none => exact ⟨h, hsafe⟩
    | some p =>
      simp only [Screen.typePassword]
      split
      · exact browsing_submit hnonneg h hsafe ssid _
      · exact browsing_submit hnonneg h hsafe ssid _
      · exact ⟨⟨h.count, h.stored, h.within⟩, ⟨hsafe.used, hsafe.offered⟩⟩

end Browsing

/-- The presses that draw the list, read the key and handle it. -/
def pressInList (key : Key) : List (Option Press) := [none, some ⟨key, 0⟩, none]

theorem run_pressInList {s : Screen} {c : Cursor} {rest : List Activation}
    (hstack : s.stack = .list c .draw :: rest) (key : Key) :
    Machine.run Screen.go s (pressInList key) =
      ({ s.draw c rest with stack := .list c (.handle (some key)) :: rest } : Screen).handle c
        (some key) rest :=
  run_listKey hstack ⟨key, 0⟩

/-- 'C' again and again moves the mark down one by one. -/
theorem run_down {s : Screen} {c : Cursor} (hstack : s.stack = [.list c .draw]) :
    ∀ n : Nat, c.selected + n < s.store.wifiCount →
      let t := Machine.run Screen.go s (List.replicate n (pressInList .C)).flatten
      t.store = s.store ∧ ∃ d, t.stack = [.list d .draw] ∧ d.selected = c.selected + n := by
  intro n
  induction n with
  | zero => exact fun _ => ⟨rfl, c, hstack, by simp⟩
  | succ n ih =>
    intro hlt
    obtain ⟨hstore, d, hd, hselected⟩ := ih (by omega)
    rw [List.replicate_succ', List.flatten_append, Machine.run_append]
    generalize Machine.run Screen.go s (List.replicate n (pressInList .C)).flatten = t at *
    rw [List.flatten_singleton, run_pressInList hd]
    refine ⟨hstore, d.down t.store.wifiCount, rfl, ?_⟩
    unfold Cursor.down
    rw [hstore, if_pos (by omega)]
    simp only
    omega

/-- The last scan decides what is on the list. -/
theorem foldl_scan (scans : List ScanResult) (store : ScanStore) :
    (∃ r, scans.getLast? = some r ∧ ∃ old : ScanStore, scans.foldl ScanStore.scan store = old.scan r) ∨
      scans = [] := by
  cases scans using List.reverseRecOn with
  | nil => exact .inr rfl
  | append_singleton scans r =>
    refine .inl ⟨r, List.getLast?_concat, scans.foldl ScanStore.scan store, ?_⟩
    rw [List.foldl_append]
    rfl

/-- After a failed scan 'B' offers what the array happens to hold. -/
theorem not_safe_of_neg {r : ScanResult} (hneg : r.count < 0) {s : Screen}
    (hcount : s.store.wifiCount = r.count) (hstack : s.stack = [.list .start .draw]) :
    ¬ Safe (some r) (Machine.run Screen.go s (pressInList .B)) := by
  intro hsafe
  obtain ⟨j, hj, hat⟩ := s.store.at_of_lt (i := 0) (by decide) (by decide)
  rw [run_pressInList hstack] at hsafe
  have hoffered : s.store.wifiList j ∈ (({ s.draw .start [] with
      stack := [.list .start (.handle (some .B))] } : Screen).handle .start (some .B) []).offered := by
    simp [Screen.handle, Screen.draw, Cursor.start, hat]
  obtain ⟨r', hr', i, hi, -, -⟩ := hsafe.offered _ hoffered
  obtain rfl := Option.some.inj hr'
  omega

/-- After a scan of more than ten networks the mark goes past the array. -/
theorem not_safe_of_gt {r : ScanResult} (hgt : maxWifiList < r.count) {s : Screen}
    (hcount : s.store.wifiCount = r.count) (hstack : s.stack = [.list .start .draw]) :
    ¬ Safe (some r) (Machine.run Screen.go s
      ((List.replicate maxWifiList (pressInList .C)).flatten ++ pressInList .B)) := by
  intro hsafe
  obtain ⟨-, d, hd, hselected⟩ := run_down hstack maxWifiList (by
    rw [hcount]
    simpa [Cursor.start] using hgt)
  rw [Machine.run_append, run_pressInList hd] at hsafe
  generalize Machine.run Screen.go s (List.replicate maxWifiList (pressInList .C)).flatten = t at hsafe
  have hused : d.selected ∈ (({ t.draw d [] with
      stack := [.list d (.handle (some .B))] } : Screen).handle d (some .B) []).used := by
    simp only [Screen.handle]
    split <;> simp
  have hbound := (hsafe.used _ hused).2
  rw [hselected] at hbound
  simp [Cursor.start] at hbound

section open_

variable {text : TextState} {scans : List ScanResult}

theorem safe_open (last : Option ScanResult) : Safe last (Screen.open_ text scans) := by
  unfold Screen.open_
  refine ⟨?_, ?_⟩
  · rw [(showWiFiList_logs _).1]
    simp
  · rw [(showWiFiList_logs _).2]
    simp

theorem open_store (text : TextState) (scans : List ScanResult) :
    (Screen.open_ text scans).store = scans.foldl ScanStore.scan .boot := by
  unfold Screen.open_ Screen.showWiFiList
  split <;> rfl

theorem open_stack (text : TextState) (scans : List ScanResult) :
    (Screen.open_ text scans).stack =
      if (scans.foldl ScanStore.scan .boot).wifiCount = 0 then [] else [.list .start .draw] := by
  unfold Screen.open_ Screen.showWiFiList
  split <;> rfl

variable {old : ScanStore} {r : ScanResult}

/-- A count outside the array shows on some run. -/
theorem count_of_safe (hstore : scans.foldl ScanStore.scan .boot = old.scan r)
    (hsafe : ∀ keys, Safe (some r) (Machine.run Screen.go (Screen.open_ text scans) keys)) :
    0 ≤ r.count ∧ r.count ≤ maxWifiList := by
  by_contra hbad
  have hcount : (Screen.open_ text scans).store.wifiCount = r.count := by
    rw [open_store, hstore]
    rfl
  have hne : (old.scan r).wifiCount ≠ 0 := by
    intro hzero
    have hzero' : r.count = 0 := hzero
    simp [hzero'] at hbad
  have hstack : (Screen.open_ text scans).stack = [.list .start .draw] := by
    rw [open_stack, hstore, if_neg hne]
  rcases (by omega : r.count < 0 ∨ maxWifiList < r.count) with hneg | hgt
  · exact not_safe_of_neg hneg hcount hstack (hsafe _)
  · exact not_safe_of_gt hgt hcount hstack (hsafe _)

theorem safe_of_count (hstore : scans.foldl ScanStore.scan .boot = old.scan r)
    (hnonneg : 0 ≤ r.count) (hcap : r.count ≤ maxWifiList) (keys : List (Option Press)) :
    Safe (some r) (Machine.run Screen.go (Screen.open_ text scans) keys) := by
  have hstart : Browsing r (Screen.open_ text scans) := by
    refine browsing_showWiFiList hnonneg ⟨?_, fun i h0 hi => ?_, by simp⟩
    · rw [hstore]
      rfl
    · simp only [hstore]
      exact old.at_scan r h0 (Int.lt_of_lt_of_le hi hcap) hi
  have hinv : ∀ s press, (Browsing r s ∧ Safe (some r) s) →
      (Browsing r (s.go press) ∧ Safe (some r) (s.go press)) :=
    fun s press h => browsing_go hnonneg hcap h.1 h.2 press
  exact (Machine.invariant_run hinv ⟨hstart, safe_open _⟩ keys).2

end open_

/-- Whatever the keys, the list stays in the array and offers stored networks
only, exactly when the last scan reported between 0 and 10 networks. -/
theorem wifiList_safe_iff (text : TextState) (scans : List ScanResult) :
    (∀ keys, Safe scans.getLast? (Machine.run Screen.go (Screen.open_ text scans) keys)) ↔
      ∀ r ∈ scans.getLast?, 0 ≤ r.count ∧ r.count ≤ maxWifiList := by
  rcases foldl_scan scans .boot with ⟨r, hlast, old, hstore⟩ | rfl
  · simp only [hlast, Option.mem_some_iff, forall_eq']
    exact ⟨count_of_safe hstore, fun h => safe_of_count hstore h.1 h.2⟩
  · -- no scan, no network: the list returns at once
    have hstop : (Screen.open_ text []).stack = [] := open_stack text []
    simp only [List.getLast?_nil, Option.not_mem_none, false_imp_iff, implies_true, iff_true]
    intro keys
    rw [run_of_stopped hstop]
    exact safe_open none

/-- A failed scan (`WIFI_SCAN_FAILED`), and one of eleven networks. -/
theorem wifiList_unsafe :
    (¬ Safe (some ⟨-2, fun _ => []⟩) (Machine.run Screen.go
        (Screen.open_ .boot [⟨-2, fun _ => []⟩]) (pressInList .B))) ∧
      ¬ Safe (some ⟨11, fun _ => ascii "x"⟩) (Machine.run Screen.go
        (Screen.open_ .boot [⟨11, fun _ => ascii "x"⟩])
        ((List.replicate maxWifiList (pressInList .C)).flatten ++ pressInList .B)) :=
  ⟨not_safe_of_neg (by decide) rfl rfl, not_safe_of_gt (by decide) rfl rfl⟩

/-! ## 2. Scans at any points -/

/-- What there was when the list was last drawn, and the last scan since. -/
structure Glance where
  drawn : ScanStore
  since : Option ScanResult

def watch (x : Screen × Glance) (e : ScreenEvent) : Screen × Glance :=
  (x.1.step e,
    match e with
    | .scan r => { x.2 with since := some r }
    | .go _ =>
      match x.1.stack with
      | .list _ .draw :: _ => ⟨x.1.store, none⟩
      | _ => x.2)

/-- If 'B' is about to be handled, the SSID it hands over is the one on the
marked row of the display, and the cursor is in the list. -/
def SelectsHighlighted (s : Screen) : Prop :=
  ∀ c rest, s.stack = .list c (.handle (some .B)) :: rest →
    c.selected < s.store.wifiCount ∧
      ∃ ssid, (true, some ssid) ∈ s.display ∧ (s.go none).offered = s.offered ++ [ssid]

/-- If 'B' is about to be handled, the cursor was in the list when it was drawn,
and the last scan since, if any, has the same SSID in the marked place. -/
def PlaceUnchanged (x : Screen × Glance) : Prop :=
  ∀ c rest, x.1.stack = .list c (.handle (some .B)) :: rest →
    c.selected < x.2.drawn.wifiCount ∧ ∀ r ∈ x.2.since, c.selected < r.count ∧
      x.2.drawn.at_ c.selected = some (r.ssid c.selected.toNat)

/-- The scans report between 1 and 10 networks. -/
def ScreenEvent.Proper : ScreenEvent → Prop
  | .go _ => True
  | .scan r => 1 ≤ r.count ∧ r.count ≤ maxWifiList

/-- A cursor that stays in the array. -/
def Activation.InArray : Activation → Prop
  | .list c _ => c.InWindow ∧ c.selected < maxWifiList
  | .password _ => True

/-- How the screen and what was last drawn hang together. -/
structure Watched (x : Screen × Glance) : Prop where
  count_le : x.1.store.wifiCount ≤ maxWifiList
  inArray : ∀ a ∈ x.1.stack, a.InArray
  current : x.2.since = none → x.1.store = x.2.drawn
  scanned : ∀ r ∈ x.2.since, x.1.store.wifiCount = r.count ∧
    ∀ i : Int, 0 ≤ i → i < maxWifiList → i < r.count → x.1.store.at_ i = some (r.ssid i.toNat)
  display : ∀ c phase rest, x.1.stack = .list c phase :: rest → phase ≠ .draw →
    x.1.display = rowsOf x.2.drawn c

/-- The marked row of a drawn list. -/
theorem marked_mem_rowsOf_iff (store : ScanStore) {c : Cursor} (h : c.InWindow) (ssid : Bytes) :
    (true, some ssid) ∈ rowsOf store c ↔
      c.selected < store.wifiCount ∧ store.at_ c.selected = some ssid := by
  unfold rowsOf
  rw [List.mem_map, ← h.selected_mem_rows_iff]
  constructor
  · rintro ⟨i, hi, heq⟩
    obtain ⟨hmark, hat⟩ := Prod.mk.inj heq
    obtain rfl : i = c.selected := by simpa using hmark
    exact ⟨hi, hat⟩
  · rintro ⟨hmem, hat⟩
    exact ⟨c.selected, hmem, by simp [hat]⟩

theorem selectsHighlighted_iff {x : Screen × Glance} (h : Watched x) :
    SelectsHighlighted x.1 ↔ PlaceUnchanged x := by
  obtain ⟨s, g⟩ := x
  unfold SelectsHighlighted PlaceUnchanged
  refine forall_congr' fun c => forall_congr' fun rest => ?_
  refine forall_congr' fun hstack => ?_
  simp only at hstack ⊢
  obtain ⟨hwin, hlt⟩ : c.InWindow ∧ c.selected < maxWifiList :=
    h.inArray (.list c (.handle (some .B))) (by simp [hstack])
  have hnonneg : 0 ≤ c.selected := Int.le_trans hwin.top_nonneg hwin.top_le
  have hdisplay := h.display c _ rest hstack (by simp)
  obtain ⟨j, hj, hat⟩ := s.store.at_of_lt hnonneg hlt
  have hoffered : (s.go none).offered = s.offered ++ [s.store.wifiList j] := by
    rw [go_handle hstack, handle_B hat]
  have hshown : (∃ ssid, (true, some ssid) ∈ s.display ∧
      (s.go none).offered = s.offered ++ [ssid]) ↔
      c.selected < g.drawn.wifiCount ∧ g.drawn.at_ c.selected = some (s.store.wifiList j) := by
    rw [← marked_mem_rowsOf_iff g.drawn hwin, hdisplay, hoffered]
    constructor
    · rintro ⟨ssid, hmem, heq⟩
      obtain rfl := List.singleton_inj.mp (List.append_cancel_left heq)
      exact hmem
    · exact fun hmem => ⟨_, hmem, rfl⟩
  rw [hshown]
  cases hsince : g.since with
  | none =>
    have hstore : s.store = g.drawn := h.current hsince
    rw [← hstore]
    simp [hat]
  | some r =>
    obtain ⟨hcount, hstored⟩ := h.scanned r hsince
    simp only at hcount hstored
    rw [hcount]
    simp only [Option.mem_some_iff, forall_eq']
    constructor
    · rintro ⟨hnew, hold, hsame⟩
      rw [← hat, hstored _ hnonneg hlt hnew] at hsame
      exact ⟨hold, hnew, hsame⟩
    · rintro ⟨hold, hnew, hsame⟩
      rw [← hat, hstored _ hnonneg hlt hnew]
      exact ⟨hnew, hold, hsame⟩

/-- A step that leaves the globals alone and has the list redrawn, if it shows one. -/
theorem Watched.restack {s s' : Screen} {g : Glance} (h : Watched (s, g))
    (hstore : s'.store = s.store) (hin : ∀ a ∈ s'.stack, a.InArray)
    (hdraw : ∀ c phase rest, s'.stack = .list c phase :: rest → phase = .draw) :
    Watched (s', g) where
  count_le := by
    show s'.store.wifiCount ≤ maxWifiList
    rw [hstore]
    exact h.count_le
  inArray := hin
  current hnone := hstore.trans (h.current hnone)
  scanned r hr := by
    simp only [hstore]
    exact h.scanned r hr
  display c phase rest hstack hne := absurd (hdraw c phase rest hstack) hne

theorem showWiFiList_stack (s : Screen) :
    s.showWiFiList.store = s.store ∧
      (s.showWiFiList.stack = [] ∨ s.showWiFiList.stack = .list .start .draw :: s.stack) := by
  unfold Screen.showWiFiList
  split
  · exact ⟨rfl, .inl rfl⟩
  · exact ⟨rfl, .inr rfl⟩

theorem Watched.showWiFiList {s : Screen} {g : Glance} (h : Watched (s, g)) :
    Watched (s.showWiFiList, g) := by
  obtain ⟨hstore, hstack⟩ := showWiFiList_stack s
  refine h.restack hstore (fun a ha => ?_) (fun c phase rest heq => ?_)
  · rcases hstack with hstack | hstack
    · simp [hstack] at ha
    · rw [hstack] at ha
      rcases List.mem_cons.mp ha with rfl | ha
      · exact ⟨inWindow_start, by decide⟩
      · exact h.inArray a ha
  · rcases hstack with hstack | hstack <;> rw [hstack] at heq
    · exact absurd heq (List.cons_ne_nil _ _).symm
    · obtain ⟨hlist, -⟩ := List.cons.inj heq
      exact (Activation.list.inj hlist).2.symm

theorem Watched.submit {s : Screen} {g : Glance} (h : Watched (s, g)) (ssid password : Bytes) :
    Watched (s.submit ssid password, g) := by
  unfold Screen.submit
  split
  · exact h.showWiFiList
  · exact h.restack rfl (fun a ha => absurd ha List.not_mem_nil)
      (fun c phase rest heq => absurd heq (List.cons_ne_nil _ _).symm)

theorem Watched.handle {s : Screen} {g : Glance} (h : Watched (s, g)) {c : Cursor}
    {key : Option Key} {rest : List Activation} (hstack : s.stack = .list c (.handle key) :: rest) :
    Watched (s.handle c key rest, g) := by
  obtain ⟨hwin, hlt⟩ : c.InWindow ∧ c.selected < maxWifiList :=
    h.inArray (.list c (.handle key)) (by simp [hstack])
  have hrest : ∀ a ∈ rest, a.InArray := fun a ha =>
    h.inArray a (by simp [hstack, ha])
  have hredraw : ∀ d : Cursor, d.InWindow → d.selected < maxWifiList →
      ∀ s' : Screen, s'.store = s.store → s'.stack = .list d .draw :: rest → Watched (s', g) := by
    intro d hd hdlt s' hstore heq
    refine h.restack hstore (fun a ha => ?_) (fun c' phase rest' heq' => ?_)
    · rw [heq] at ha
      rcases List.mem_cons.mp ha with rfl | ha
      · exact ⟨hd, hdlt⟩
      · exact hrest a ha
    · obtain ⟨hlist, -⟩ := List.cons.inj (heq.symm.trans heq')
      exact (Activation.list.inj hlist).2.symm
  unfold Screen.handle
  split
  · exact hredraw c.up hwin.up (Int.lt_of_le_of_lt c.selected_up_le hlt) _ rfl rfl
  · exact hredraw _ (hwin.down _) (Cursor.selected_down_lt hlt h.count_le) _ rfl rfl
  · simp only
    split
    · refine h.restack rfl (fun a ha => ?_) (fun c' phase rest' heq => ?_)
      · rcases List.mem_cons.mp ha with rfl | ha
        · trivial
        · exact h.inArray a (hstack ▸ ha)
      · exact absurd (List.cons.inj heq).1 (by simp)
    · exact h.restack rfl (fun a ha => absurd ha List.not_mem_nil)
        (fun c' phase rest' heq => absurd heq (List.cons_ne_nil _ _).symm)
  · exact h.restack rfl (fun a ha => absurd ha List.not_mem_nil)
      (fun c' phase rest' heq => absurd heq (List.cons_ne_nil _ _).symm)
  · exact hredraw c hwin hlt _ rfl rfl

theorem watched_go {s : Screen} {g : Glance} (h : Watched (s, g)) (press : Option Press) :
    Watched (watch (s, g) (.go press)) := by
  unfold watch Screen.step Screen.go
  cases hstack : s.stack with
  | nil => simpa using h
  | cons a rest =>
    cases a with
    | list c phase =>
      have hc := h.inArray (.list c phase) (by simp [hstack])
      have hrest : ∀ a ∈ rest, a.InArray := fun a ha => h.inArray a (by simp [hstack, ha])
      have htop : ∀ phase', ∀ a ∈ Activation.list c phase' :: rest, a.InArray := by
        intro phase' a ha
        rcases List.mem_cons.mp ha with rfl | ha
        · exact hc
        · exact hrest a ha
      cases phase with
      | draw =>
        refine ⟨h.count_le, htop .read, fun _ => rfl, fun r hr => absurd hr (Option.not_mem_none r),
          fun d phase' rest' heq _ => ?_⟩
        obtain ⟨rfl, -⟩ := Activation.list.inj (List.cons.inj heq).1
        rfl
      | read =>
        refine ⟨h.count_le, htop _, h.current, h.scanned, fun d phase' rest' heq _ => ?_⟩
        obtain ⟨rfl, -⟩ := Activation.list.inj (List.cons.inj heq).1
        exact h.display c .read rest hstack (by simp)
      | handle key => simpa [hstack] using h.handle hstack
    | password ssid =>
      cases press with
      | none => simpa [hstack] using h
      | some p =>
        simp only [Screen.typePassword]
        split
        · exact h.submit ssid _
        · exact h.submit ssid _
        · refine h.restack rfl h.inArray fun c phase rest' heq => ?_
          exact absurd (List.cons.inj (hstack.symm.trans heq)).1 (by simp)

/-- The step lemma: any step, with scans in the range, keeps the bookkeeping. -/
theorem watched_step {x : Screen × Glance} {e : ScreenEvent} (h : Watched x) (he : e.Proper) :
    Watched (watch x e) := by
  obtain ⟨s, g⟩ := x
  cases e with
  | go press => exact watched_go h press
  | scan r =>
    refine ⟨he.2, h.inArray, fun hnone => absurd hnone (Option.some_ne_none r), ?_, h.display⟩
    intro r' hr'
    obtain rfl := Option.some.inj hr'
    exact ⟨rfl, fun i h0 hi hcount => s.store.at_scan r h0 hi hcount⟩

/-- Under web scans of 1 to 10 networks at any points: in every state of the run
'B' selects what is highlighted, exactly when in every state the marked place is
as it was when it was drawn. -/
theorem highlighted_iff_unchanged (text : TextState) (scans : List ScanResult)
    (hscans : ∀ r ∈ scans, (ScreenEvent.scan r).Proper) (events : List ScreenEvent)
    (hevents : ∀ e ∈ events, e.Proper) :
    Machine.Throughout Screen.step SelectsHighlighted (Screen.open_ text scans) events ↔
      Machine.Throughout watch PlaceUnchanged
        (Screen.open_ text scans, ⟨(Screen.open_ text scans).store, none⟩) events := by
  have hstart : Watched (Screen.open_ text scans, ⟨(Screen.open_ text scans).store, none⟩) := by
    have hcount : (scans.foldl ScanStore.scan .boot).wifiCount ≤ maxWifiList := by
      rcases foldl_scan scans .boot with ⟨r, hlast, old, hstore⟩ | rfl
      · rw [hstore]
        exact (hscans r (List.mem_of_getLast? hlast)).2
      · decide
    have hbase : Watched (⟨scans.foldl ScanStore.scan .boot, [], text, [], [], [], []⟩,
        ⟨scans.foldl ScanStore.scan .boot, none⟩) :=
      ⟨hcount, (fun a ha => absurd ha List.not_mem_nil), fun _ => rfl,
        (fun r hr => absurd hr (Option.not_mem_none r)),
        fun c phase rest heq => absurd heq (List.cons_ne_nil _ _).symm⟩
    unfold Screen.open_
    rw [(showWiFiList_stack _).1]
    exact hbase.showWiFiList
  have hproper : Machine.StepsOk watch (fun _ e => e.Proper)
      (Screen.open_ text scans, ⟨(Screen.open_ text scans).store, none⟩) events := by
    rw [Machine.stepsOk_iff_forall]
    rintro pre e post rfl
    exact hevents e (by simp)
  have hwatched := Machine.throughout_of_step (fun x e h he => watched_step h he) hstart hproper
  refine forall_congr' fun pre => forall_congr' fun hpre => ?_
  have hfst : (Machine.run watch (Screen.open_ text scans,
      ⟨(Screen.open_ text scans).store, none⟩) pre).1 =
        Machine.run Screen.step (Screen.open_ text scans) pre :=
    Machine.run_hom (fun _ _ => rfl) _ pre
  rw [← hfst]
  exact selectsHighlighted_iff (hwatched pre hpre)

/-- A scan of two networks, and one of another network. -/
def twoNetworks : ScanResult := ⟨2, fun i => if i = 0 then ascii "home" else ascii "cafe"⟩
def otherNetwork : ScanResult := ⟨1, fun _ => ascii "evil"⟩

theorem highlighted_iff_unchanged_rescan :
    Machine.Throughout Screen.step SelectsHighlighted (Screen.open_ .boot [twoNetworks])
        [.go none, .scan twoNetworks, .go (some ⟨.B, 0⟩), .go none] ↔
      Machine.Throughout watch PlaceUnchanged (Screen.open_ .boot [twoNetworks],
          ⟨(Screen.open_ .boot [twoNetworks]).store, none⟩)
        [.go none, .scan twoNetworks, .go (some ⟨.B, 0⟩), .go none] :=
  highlighted_iff_unchanged .boot [twoNetworks] (by simp [ScreenEvent.Proper, twoNetworks]) _
    (by simp [ScreenEvent.Proper, twoNetworks])

/-- A web scan between the redraw and the key: the display marks `home`, and
'B' opens the password screen for `evil`. -/
theorem selects_other_network :
    let events : List ScreenEvent := [.go none, .scan otherNetwork, .go (some ⟨.B, 0⟩)]
    let s := Machine.run Screen.step (Screen.open_ .boot [twoNetworks]) events
    s.display = [(true, some (ascii "home")), (false, some (ascii "cafe"))] ∧
      (s.go none).offered = [ascii "evil"] ∧
      ¬ Machine.Throughout Screen.step SelectsHighlighted (Screen.open_ .boot [twoNetworks])
        events := by
  have hdisplay : (Machine.run Screen.step (Screen.open_ .boot [twoNetworks])
      [.go none, .scan otherNetwork, .go (some ⟨.B, 0⟩)]).display =
        [(true, some (ascii "home")), (false, some (ascii "cafe"))] := by decide
  have hoffered : ((Machine.run Screen.step (Screen.open_ .boot [twoNetworks])
      [.go none, .scan otherNetwork, .go (some ⟨.B, 0⟩)]).go none).offered =
        [ascii "evil"] := by decide
  refine ⟨hdisplay, hoffered, fun h => ?_⟩
  obtain ⟨-, ssid, hmem, hssid⟩ := h _ List.prefix_rfl .start [] rfl
  rw [hdisplay] at hmem
  rw [hoffered] at hssid
  obtain rfl : ssid = ascii "home" := by simpa using hmem
  exact absurd hssid (by decide)

end Handheld
