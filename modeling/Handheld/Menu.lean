import Handheld.Keypad
import Handheld.ListCursor
import Handheld.Machine

/-!
# The menu (`Menu.h`)

`handleKeypad` reads a key and handles it in the menu that is shown. Some actions
read keys in loops of their own, so a step is one reading of the keypad, wherever
the program waits for it.

Results:
1. `Consistent.step`: while a sub-menu is open its arrow is in the window, and
   the rows on the display are those of its items.
2. `throughout_lawful_iff`: the menu executes what its arrow points at throughout
   a run exactly when "Read ID" is never left with 'D'.
-/

namespace Handheld

open ByteString ListCursor

/-! ## Definitions -/

inductive MenuState
  | mainMenu
  | subMenu
  | subMenuLevel2
deriving DecidableEq, Repr

/-- The screens of other files that read keys. They keep to variables of their own. -/
inductive KeyScreen
  | showWiFiList
  | displayInfoWifi
  | displaySpeedWifi
  | displayTime
  | displayDeviceInfo
  | showFileList
deriving DecidableEq, Repr

/-- Where the program reads the next key. -/
inductive Waiting
  | handleKeypad
  | readRFID
  | controlJoystick
  | handleUARTMode
  | rssi
  | screen (s : KeyScreen)
deriving DecidableEq, Repr

/-- The two calls of `openSubMenuLevel2`, with their callbacks. -/
inductive SubMenu2
  | apMode
  | sound
deriving DecidableEq, Repr

/-- The part of the display below the header. A row is its height and its text. -/
inductive Display
  | mainMenu (index : Int)
  | subMenu (rows : List (Int × Option Bytes)) (arrowY : Int)
  | subMenuLevel2 (rows : List (Int × Bytes)) (arrowY : Int) (dotY : Option Int)
  | other
deriving DecidableEq, Repr

/-- The globals of `Menu.h`, what is displayed, and where the program waits. -/
structure Menu where
  menuState : MenuState
  mainMenuIndex : Int
  subMenuIndex : Int
  menuIndex : Int
  subMenu2Index : Int
  subMenu2Items : Option (List Bytes)
  subMenu2Size : Int
  subMenu2Callback : Option SubMenu2
  subMenu2DrawExtra : Option SubMenu2
  soundOn : Bool
  isAPMode : Bool
  display : Display
  waiting : Waiting

def maxMenu : Int := 6

def menuWifi : List Bytes :=
  [ascii "Connect", ascii "Scan", ascii "Info", ascii "AP Mode", ascii "Speed", ascii "RSSI"]

def menuClock : List Bytes := [ascii "Clock", ascii "Count"]

def menuSetup : List Bytes := [ascii "Control", ascii "Sound", ascii "Reset", ascii "About"]

def menuSD : List Bytes := [ascii "Read SD", ascii "Remove"]

def menuRF : List Bytes := [ascii "Read ID", ascii "Remove"]

def menuJS : List Bytes := [ascii "Test", ascii "Control"]

/-- The items that `displaySubMenu` hands to `displayMenu`. -/
def menuItems : Int → Option (List Bytes)
  | 1 => some menuWifi
  | 2 => some menuClock
  | 3 => some menuSetup
  | 4 => some menuSD
  | 5 => some menuRF
  | 6 => some menuJS
  | _ => none

/-- `subMenuSize[mainMenuIndex - 1]`. -/
def subMenuSize (mainMenuIndex : Int) : Int :=
  [6, 2, 4, 2, 2, 2].getD (mainMenuIndex - 1).toNat 0

/-- `items[i]`, for an index in the array. -/
def itemAt (items : List Bytes) (i : Int) : Option Bytes := if 0 ≤ i then items[i.toNat]? else none

/-- Whether the screen comes to read a key: it needs networks, a link or files. -/
def KeyScreen.reads (answer : Bool) : KeyScreen → Bool
  | .displayInfoWifi | .displayDeviceInfo => true
  | .showWiFiList | .displaySpeedWifi | .displayTime | .showFileList => answer

/-- Whether the screen returns after the key. The two lists have their own way
through keys and further screens. -/
def KeyScreen.leaves (key : Option Key) (answer : Bool) : KeyScreen → Bool
  | .displayInfoWifi | .displayTime | .displayDeviceInfo => key = some .D
  | .displaySpeedWifi => true
  | .showWiFiList | .showFileList => answer

namespace Menu

/-- After `setup`. -/
def boot : Menu where
  menuState := .mainMenu
  mainMenuIndex := 1
  subMenuIndex := 0
  menuIndex := 0
  subMenu2Index := 0
  subMenu2Items := none
  subMenu2Size := 0
  subMenu2Callback := none
  subMenu2DrawExtra := none
  soundOn := true
  isAPMode := false
  display := .mainMenu 1
  waiting := .handleKeypad

/-- The arrow of the sub-menu and its window of three rows. -/
def cursor (m : Menu) : Cursor := ⟨m.subMenuIndex, m.menuIndex⟩

def setCursor (m : Menu) (c : Cursor) : Menu :=
  { m with subMenuIndex := c.selected, menuIndex := c.top }

/-! ### Drawing -/

/-- Row `i` of the display. -/
def rowY (i : Int) : Int := 26 + i * 16

/-- The rows in the window, and the arrow. -/
def menuScreen (items : List Bytes) (size : Int) (c : Cursor) : Display :=
  .subMenu ((c.rows size).map fun i => (rowY (i - c.top), itemAt items i)) (rowY (c.selected - c.top))

def displayMenu (items : List Bytes) (size : Int) (m : Menu) : Menu :=
  { m with display := menuScreen items size m.cursor }

def displaySubMenu (m : Menu) : Menu :=
  match menuItems m.mainMenuIndex with
  | some items => m.displayMenu items (subMenuSize m.mainMenuIndex)
  | none => m

def displayMainMenu (m : Menu) : Menu :=
  if 1 ≤ m.mainMenuIndex ∧ m.mainMenuIndex ≤ 6 then { m with display := .mainMenu m.mainMenuIndex }
  else m

/-- The dot beside "On" or "Off". -/
def drawExtra (m : Menu) : SubMenu2 → Int
  | .apMode => if m.isAPMode then 23 else 37
  | .sound => if m.soundOn then 23 else 37

def displaySubMenuLevel2 (m : Menu) : Menu :=
  match m.subMenu2Items with
  | none => m
  | some items =>
    { m with
      display := .subMenuLevel2
        ((items.take m.subMenu2Size.toNat).mapIdx fun i text => (rowY i, text))
        (rowY m.subMenu2Index) (m.subMenu2DrawExtra.map m.drawExtra) }

def openSubMenuLevel2 (items : List Bytes) (size : Int) (callback : SubMenu2) (m : Menu) : Menu :=
  displaySubMenuLevel2 { m with
    subMenu2Items := some items
    subMenu2Size := size
    subMenu2Callback := some callback
    subMenu2DrawExtra := some callback
    subMenu2Index := 0
    menuState := .subMenuLevel2 }

/-- `menuState = SUB_MENU; displaySubMenu();`, and the loop of the action ends. -/
def backToSubMenu (m : Menu) : Menu :=
  displaySubMenu { m with menuState := .subMenu, waiting := .handleKeypad }

/-! ### Actions -/

/-- The branches of `executeSubMenuAction`. -/
inductive MenuAction
  | screen (s : KeyScreen)
  | scanWiFi
  | apMode
  | rssi
  | handleUARTMode
  | sound
  | restart
  | removeSD
  | readRFID
  | endRFID
  | controlJoystick
deriving DecidableEq, Repr

/-- The branch taken, if any: "Count" of the clock and "Control" of the joystick have none. -/
def chosenAction (mainMenuIndex subMenuIndex : Int) : Option MenuAction :=
  match mainMenuIndex, subMenuIndex with
  | 1, 0 => some (.screen .showWiFiList)
  | 1, 1 => some .scanWiFi
  | 1, 2 => some (.screen .displayInfoWifi)
  | 1, 3 => some .apMode
  | 1, 4 => some (.screen .displaySpeedWifi)
  | 1, 5 => some .rssi
  | 2, 0 => some (.screen .displayTime)
  | 3, 0 => some .handleUARTMode
  | 3, 1 => some .sound
  | 3, 2 => some .restart
  | 3, 3 => some (.screen .displayDeviceInfo)
  | 4, 0 => some (.screen .showFileList)
  | 4, 1 => some .removeSD
  | 5, 0 => some .readRFID
  | 5, 1 => some .endRFID
  | 6, 0 => some .controlJoystick
  | _, _ => none

/-- A screen of another file. It covers the sub-menu, and may return before it reads a key. -/
def show_ (s : KeyScreen) (answer : Bool) (m : Menu) : Menu :=
  { m with display := .other, waiting := if s.reads answer then .screen s else .handleKeypad }

/-- An action up to its first reading of a key. -/
def perform (a : MenuAction) (answer : Bool) (m : Menu) : Menu :=
  match a with
  | .screen s => m.show_ s answer
  | .scanWiFi => { m with display := .other }
  | .apMode => m.openSubMenuLevel2 [ascii "On", ascii "Off"] 2 .apMode
  | .rssi => { m with display := .other, waiting := .rssi }
  | .handleUARTMode => { m with display := .other, waiting := .handleUARTMode }
  | .sound => m.openSubMenuLevel2 [ascii "On", ascii "Off"] 2 .sound
  | .restart => boot
  | .readRFID => { m with display := .other, waiting := .readRFID }
  -- nothing is drawn before the first key is read
  | .controlJoystick => { m with waiting := .controlJoystick }
  | .removeSD | .endRFID => m

def executeSubMenuAction (m : Menu) (answer : Bool) : Menu :=
  match chosenAction m.mainMenuIndex m.subMenuIndex with
  | some a => m.perform a answer
  | none => m

/-- `subMenu2Callback(idx)`. `answer` is that of `startAPMode`. -/
def callback (c : SubMenu2) (idx : Int) (answer : Bool) (m : Menu) : Menu :=
  match c with
  | .apMode =>
    let m :=
      if idx = 0 then
        if answer then { m with isAPMode := true, display := .other } else { m with display := .other }
      else if idx = 1 then { m with isAPMode := false }
      else m
    displaySubMenu { m with menuState := .subMenu }
  | .sound => { m with soundOn := idx = 0 }

/-! ### Keys -/

def handleKeypad (m : Menu) (key : Option Key) (answer : Bool) : Menu :=
  match key, m.menuState with
  | some .A, .mainMenu =>
    displayMainMenu { m with
      mainMenuIndex := if m.mainMenuIndex < maxMenu then m.mainMenuIndex + 1 else 1 }
  | some .A, .subMenu =>
    displaySubMenu (m.setCursor (m.cursor.upRound (subMenuSize m.mainMenuIndex)))
  | some .A, .subMenuLevel2 =>
    displaySubMenuLevel2 { m with
      subMenu2Index := if m.subMenu2Index > 0 then m.subMenu2Index - 1 else m.subMenu2Size - 1 }
  | some .C, .mainMenu =>
    displayMainMenu { m with
      mainMenuIndex := if m.mainMenuIndex > 1 then m.mainMenuIndex - 1 else maxMenu }
  | some .C, .subMenu =>
    displaySubMenu (m.setCursor (m.cursor.downRound (subMenuSize m.mainMenuIndex)))
  | some .C, .subMenuLevel2 =>
    displaySubMenuLevel2 { m with
      subMenu2Index := if m.subMenu2Index < m.subMenu2Size - 1 then m.subMenu2Index + 1 else 0 }
  | some .B, .mainMenu => displaySubMenu (({ m with menuState := .subMenu } : Menu).setCursor .start)
  | some .B, .subMenu => m.executeSubMenuAction answer
  | some .B, .subMenuLevel2 =>
    let m :=
      match m.subMenu2Callback with
      | some c => m.callback c m.subMenu2Index answer
      | none => m
    displaySubMenu { m with menuState := .subMenu }
  | some .D, .subMenuLevel2 => displaySubMenu { m with menuState := .subMenu }
  | some .D, .subMenu => displayMainMenu { m with menuState := .mainMenu }
  | _, _ => m

/-- A key is read, `none` if there is none. `answer` is what the rest of the
program and the hardware answer, where they are asked. -/
def poll (m : Menu) (key : Option Key) (answer : Bool) : Menu :=
  match m.waiting with
  | .handleKeypad => m.handleKeypad key answer
  | .readRFID =>
    if key = some .D then { m.backToSubMenu with subMenuIndex := -1 } else { m with display := .other }
  | .controlJoystick => if key = some .D then m.backToSubMenu else { m with display := .other }
  | .handleUARTMode => if key = some .D then m.backToSubMenu else m
  | .rssi =>
    if key = some .D then { m with waiting := .handleKeypad } else { m with display := .other }
  | .screen s =>
    { m with display := .other, waiting := if s.leaves key answer then .handleKeypad else .screen s }

inductive MenuEvent
  | poll (key : Option Key) (answer : Bool)
  | restart

def step (m : Menu) : MenuEvent → Menu
  | .poll key answer => m.poll key answer
  | .restart => boot

/-! ### What the menu is for -/

/-- The action that an item is for. -/
def itemAction (mainMenuIndex : Int) (item : Bytes) : Option MenuAction :=
  (match mainMenuIndex with
    | 1 => [(ascii "Connect", .screen .showWiFiList), (ascii "Scan", .scanWiFi),
        (ascii "Info", .screen .displayInfoWifi), (ascii "AP Mode", .apMode),
        (ascii "Speed", .screen .displaySpeedWifi), (ascii "RSSI", .rssi)]
    | 2 => [(ascii "Clock", .screen .displayTime)]
    | 3 => [(ascii "Control", .handleUARTMode), (ascii "Sound", .sound), (ascii "Reset", .restart),
        (ascii "About", .screen .displayDeviceInfo)]
    | 4 => [(ascii "Read SD", .screen .showFileList), (ascii "Remove", .removeSD)]
    | 5 => [(ascii "Read ID", .readRFID), (ascii "Remove", .endRFID)]
    | 6 => [(ascii "Test", .controlJoystick)]
    | _ => [] : List (Bytes × MenuAction)).lookup item

/-- In a sub-menu the index is that of an item; as long as the sub-menu is
displayed the arrow is in the row of this item, and 'B' executes what the item in
the row of the arrow is for. -/
structure Lawful (m : Menu) : Prop where
  valid : m.menuState = .subMenu →
    0 ≤ m.subMenuIndex ∧ m.subMenuIndex < subMenuSize m.mainMenuIndex
  pointed : m.menuState = .subMenu → ∀ rows arrowY, m.display = .subMenu rows arrowY →
    ∃ items, menuItems m.mainMenuIndex = some items ∧ (arrowY, itemAt items m.subMenuIndex) ∈ rows
  executed : m.menuState = .subMenu → ∀ rows arrowY item, m.display = .subMenu rows arrowY →
    (arrowY, some item) ∈ rows →
      chosenAction m.mainMenuIndex m.subMenuIndex = itemAction m.mainMenuIndex item

/-- The step does not leave "Read ID". -/
def StaysInReadID (m : Menu) (e : MenuEvent) : Prop :=
  ¬ (m.waiting = .readRFID ∧ ∃ answer, e = .poll (some .D) answer)

/-! ## 1. The window and the display -/

/-- The mark is in the window and on an item of the sub-menu. -/
structure InSubMenu (mainMenuIndex : Int) (c : Cursor) : Prop where
  inWindow : c.InWindow
  lt : c.selected < subMenuSize mainMenuIndex

/-- What holds between two readings of the keypad: an open sub-menu has its mark in
the window, what is displayed of it is up to date, and only it has loops of its own. -/
structure Consistent (m : Menu) : Prop where
  main : 1 ≤ m.mainMenuIndex ∧ m.mainMenuIndex ≤ 6
  place : m.menuState ≠ .mainMenu → InSubMenu m.mainMenuIndex m.cursor
  drawn : m.menuState = .subMenu → ∀ rows arrowY, m.display = .subMenu rows arrowY →
    ∃ items, menuItems m.mainMenuIndex = some items ∧
      m.display = menuScreen items (subMenuSize m.mainMenuIndex) m.cursor
  inSubMenu : m.waiting ≠ .handleKeypad → m.menuState = .subMenu

section drawing

variable (m : Menu)

@[simp] theorem displaySubMenu_mainMenuIndex :
    m.displaySubMenu.mainMenuIndex = m.mainMenuIndex := by
  unfold displaySubMenu
  cases menuItems m.mainMenuIndex <;> rfl

@[simp] theorem displaySubMenu_cursor : m.displaySubMenu.cursor = m.cursor := by
  unfold displaySubMenu
  cases menuItems m.mainMenuIndex <;> rfl

@[simp] theorem displaySubMenu_menuState : m.displaySubMenu.menuState = m.menuState := by
  unfold displaySubMenu
  cases menuItems m.mainMenuIndex <;> rfl

end drawing

theorem menuItems_of_main {i : Int} (h : 1 ≤ i ∧ i ≤ 6) :
    ∃ items, menuItems i = some items ∧ subMenuSize i = items.length ∧ 0 < subMenuSize i := by
  have hcases : i = 1 ∨ i = 2 ∨ i = 3 ∨ i = 4 ∨ i = 5 ∨ i = 6 := by omega
  rcases hcases with rfl | rfl | rfl | rfl | rfl | rfl <;> exact ⟨_, rfl, by decide, by decide⟩

theorem inSubMenu_start {i : Int} (h : 1 ≤ i ∧ i ≤ 6) : InSubMenu i .start := by
  obtain ⟨items, -, -, hpos⟩ := menuItems_of_main h
  exact ⟨inWindow_start, hpos⟩

theorem InSubMenu.upRound {i : Int} {c : Cursor} (hi : 1 ≤ i ∧ i ≤ 6) (h : InSubMenu i c) :
    InSubMenu i (c.upRound (subMenuSize i)) := by
  obtain ⟨items, -, -, hpos⟩ := menuItems_of_main hi
  exact ⟨h.inWindow.upRound hpos, Cursor.selected_upRound_lt h.lt hpos⟩

theorem InSubMenu.downRound {i : Int} {c : Cursor} (hi : 1 ≤ i ∧ i ≤ 6) (h : InSubMenu i c) :
    InSubMenu i (c.downRound (subMenuSize i)) := by
  obtain ⟨items, -, -, hpos⟩ := menuItems_of_main hi
  exact ⟨h.inWindow.downRound _, Cursor.selected_downRound_lt h.lt hpos⟩

theorem boot_consistent : boot.Consistent where
  main := by decide
  place h := absurd rfl h
  drawn h := by cases h
  inSubMenu h := absurd rfl h

/-- A sub-menu that has just been drawn. -/
theorem consistent_displaySubMenu {m : Menu} (hmain : 1 ≤ m.mainMenuIndex ∧ m.mainMenuIndex ≤ 6)
    (hplace : InSubMenu m.mainMenuIndex m.cursor) (hstate : m.menuState = .subMenu) :
    m.displaySubMenu.Consistent where
  main := by rwa [displaySubMenu_mainMenuIndex]
  place _ := by rwa [displaySubMenu_mainMenuIndex, displaySubMenu_cursor]
  drawn _ _ _ _ := by
    obtain ⟨items, hitems, -⟩ := menuItems_of_main hmain
    rw [displaySubMenu_mainMenuIndex, displaySubMenu_cursor, displaySubMenu, hitems]
    exact ⟨items, rfl, rfl⟩
  inSubMenu _ := by rwa [displaySubMenu_menuState]

/-- The main menu that has just been drawn. -/
theorem consistent_displayMainMenu {m : Menu} (hmain : 1 ≤ m.mainMenuIndex ∧ m.mainMenuIndex ≤ 6)
    (hstate : m.menuState = .mainMenu) (hwaiting : m.waiting = .handleKeypad) :
    m.displayMainMenu.Consistent := by
  unfold displayMainMenu
  rw [if_pos hmain]
  refine ⟨hmain, fun h => absurd hstate h, fun h => ?_, fun h => absurd hwaiting h⟩
  rw [hstate] at h
  cases h

/-- A second-level menu that has just been drawn. -/
theorem consistent_displaySubMenuLevel2 {m : Menu}
    (hmain : 1 ≤ m.mainMenuIndex ∧ m.mainMenuIndex ≤ 6)
    (hplace : InSubMenu m.mainMenuIndex m.cursor) (hstate : m.menuState = .subMenuLevel2)
    (hwaiting : m.waiting = .handleKeypad) : m.displaySubMenuLevel2.Consistent := by
  unfold displaySubMenuLevel2
  cases m.subMenu2Items with
  | none =>
    refine ⟨hmain, fun _ => hplace, fun h => ?_, fun h => absurd hwaiting h⟩
    rw [hstate] at h
    cases h
  | some items =>
    refine ⟨hmain, fun _ => hplace, fun _ _ _ hdisplay => ?_, fun h => absurd hwaiting h⟩
    cases hdisplay

/-- A sub-menu that has been covered, with or without a loop. -/
theorem Consistent.covered {m : Menu} (h : m.Consistent) (hstate : m.menuState = .subMenu)
    (w : Waiting) : ({ m with display := .other, waiting := w } : Menu).Consistent where
  main := h.main
  place := h.place
  drawn _ _ _ hdisplay := by cases hdisplay
  inSubMenu _ := hstate

theorem Consistent.subMenuPlace {m : Menu} (h : m.Consistent) (hstate : m.menuState = .subMenu) :
    InSubMenu m.mainMenuIndex m.cursor := h.place (by rw [hstate]; decide)

theorem Consistent.openSubMenuLevel2 {m : Menu} (h : m.Consistent)
    (hplace : InSubMenu m.mainMenuIndex m.cursor) (hwaiting : m.waiting = .handleKeypad)
    (items : List Bytes) (size : Int) (c : SubMenu2) :
    (m.openSubMenuLevel2 items size c).Consistent :=
  @consistent_displaySubMenuLevel2 (Menu.mk ..) h.main hplace rfl hwaiting

theorem Consistent.perform {m : Menu} (h : m.Consistent) (hstate : m.menuState = .subMenu)
    (hwaiting : m.waiting = .handleKeypad) (a : MenuAction) (answer : Bool) :
    (m.perform a answer).Consistent := by
  have hplace := h.subMenuPlace hstate
  cases a with
  | screen s => exact h.covered hstate _
  | scanWiFi => exact h.covered hstate m.waiting
  | apMode => exact h.openSubMenuLevel2 hplace hwaiting _ _ _
  | rssi => exact h.covered hstate _
  | handleUARTMode => exact h.covered hstate _
  | sound => exact h.openSubMenuLevel2 hplace hwaiting _ _ _
  | restart => exact boot_consistent
  | removeSD => exact h
  | readRFID => exact h.covered hstate _
  | endRFID => exact h
  | controlJoystick => exact ⟨h.main, h.place, h.drawn, fun _ => hstate⟩

theorem callback_place (c : SubMenu2) (idx : Int) (answer : Bool) (m : Menu) :
    (m.callback c idx answer).mainMenuIndex = m.mainMenuIndex ∧
      (m.callback c idx answer).cursor = m.cursor := by
  cases c with
  | sound => exact ⟨rfl, rfl⟩
  | apMode =>
    unfold callback
    rw [displaySubMenu_mainMenuIndex, displaySubMenu_cursor]
    split_ifs <;> exact ⟨rfl, rfl⟩

theorem Consistent.backToSubMenu {m : Menu} (h : m.Consistent) (hstate : m.menuState = .subMenu) :
    m.backToSubMenu.Consistent :=
  consistent_displaySubMenu h.main (h.subMenuPlace hstate) rfl

theorem next_main {i : Int} (h : 1 ≤ i ∧ i ≤ 6) :
    1 ≤ (if i < maxMenu then i + 1 else 1) ∧ (if i < maxMenu then i + 1 else 1) ≤ 6 := by
  unfold maxMenu
  split_ifs <;> omega

theorem previous_main {i : Int} (h : 1 ≤ i ∧ i ≤ 6) :
    1 ≤ (if i > 1 then i - 1 else maxMenu) ∧ (if i > 1 then i - 1 else maxMenu) ≤ 6 := by
  unfold maxMenu
  split_ifs <;> omega

/-- A key in the main menu. -/
theorem Consistent.handleMainMenu {m : Menu} (h : m.Consistent) (hstate : m.menuState = .mainMenu)
    (hwaiting : m.waiting = .handleKeypad) (key : Option Key) (answer : Bool) :
    (m.handleKeypad key answer).Consistent := by
  unfold Menu.handleKeypad
  rw [hstate]
  cases key with
  | none => exact h
  | some k =>
    cases k with
    | A => exact consistent_displayMainMenu (next_main h.main) rfl hwaiting
    | C => exact consistent_displayMainMenu (previous_main h.main) rfl hwaiting
    | B => exact consistent_displaySubMenu h.main (inSubMenu_start h.main) rfl
    | D | digit _ | star | hash => exact h

/-- A key in a sub-menu. -/
theorem Consistent.handleSubMenu {m : Menu} (h : m.Consistent) (hstate : m.menuState = .subMenu)
    (hwaiting : m.waiting = .handleKeypad) (key : Option Key) (answer : Bool) :
    (m.handleKeypad key answer).Consistent := by
  have hplace := h.subMenuPlace hstate
  unfold Menu.handleKeypad
  rw [hstate]
  cases key with
  | none => exact h
  | some k =>
    cases k with
    | A => exact consistent_displaySubMenu h.main (hplace.upRound h.main) hstate
    | C => exact consistent_displaySubMenu h.main (hplace.downRound h.main) hstate
    | B =>
      show (m.executeSubMenuAction answer).Consistent
      unfold executeSubMenuAction
      cases chosenAction m.mainMenuIndex m.subMenuIndex with
      | none => exact h
      | some a => exact h.perform hstate hwaiting a answer
    | D => exact consistent_displayMainMenu h.main rfl hwaiting
    | digit _ | star | hash => exact h

/-- A key in a second-level menu. -/
theorem Consistent.handleSubMenuLevel2 {m : Menu} (h : m.Consistent)
    (hstate : m.menuState = .subMenuLevel2) (hwaiting : m.waiting = .handleKeypad)
    (key : Option Key) (answer : Bool) : (m.handleKeypad key answer).Consistent := by
  have hplace := h.place (by rw [hstate]; decide)
  unfold Menu.handleKeypad
  rw [hstate]
  cases key with
  | none => exact h
  | some k =>
    cases k with
    | A => exact consistent_displaySubMenuLevel2 h.main hplace rfl hwaiting
    | C => exact consistent_displaySubMenuLevel2 h.main hplace rfl hwaiting
    | B =>
      dsimp only
      cases m.subMenu2Callback with
      | none => exact consistent_displaySubMenu h.main hplace rfl
      | some c =>
        obtain ⟨hmain, hcursor⟩ := callback_place c m.subMenu2Index answer m
        refine consistent_displaySubMenu ?_ ?_ rfl
        · show 1 ≤ (m.callback c m.subMenu2Index answer).mainMenuIndex ∧ _
          rw [hmain]
          exact h.main
        · show InSubMenu (m.callback c m.subMenu2Index answer).mainMenuIndex
            (m.callback c m.subMenu2Index answer).cursor
          rwa [hmain, hcursor]
    | D => exact consistent_displaySubMenu h.main hplace rfl
    | digit _ | star | hash => exact h

theorem Consistent.handleKeypad {m : Menu} (h : m.Consistent) (hwaiting : m.waiting = .handleKeypad)
    (key : Option Key) (answer : Bool) : (m.handleKeypad key answer).Consistent := by
  cases hstate : m.menuState with
  | mainMenu => exact h.handleMainMenu hstate hwaiting key answer
  | subMenu => exact h.handleSubMenu hstate hwaiting key answer
  | subMenuLevel2 => exact h.handleSubMenuLevel2 hstate hwaiting key answer

theorem Consistent.step {m : Menu} (h : m.Consistent) {e : MenuEvent} (hok : m.StaysInReadID e) :
    (m.step e).Consistent := by
  cases e with
  | restart => exact boot_consistent
  | poll key answer =>
    show (m.poll key answer).Consistent
    unfold poll
    cases hwaiting : m.waiting with
    | handleKeypad => exact h.handleKeypad hwaiting key answer
    | readRFID =>
      have hstate := h.inSubMenu (by rw [hwaiting]; decide)
      have hkey : key ≠ some .D := fun hkey => hok ⟨hwaiting, answer, by rw [hkey]⟩
      dsimp only
      rw [if_neg hkey]
      exact h.covered hstate .readRFID
    | controlJoystick =>
      have hstate := h.inSubMenu (by rw [hwaiting]; decide)
      dsimp only
      split_ifs
      · exact h.backToSubMenu hstate
      · exact h.covered hstate .controlJoystick
    | handleUARTMode =>
      have hstate := h.inSubMenu (by rw [hwaiting]; decide)
      dsimp only
      split_ifs
      · exact h.backToSubMenu hstate
      · exact h
    | rssi =>
      have hstate := h.inSubMenu (by rw [hwaiting]; decide)
      dsimp only
      split_ifs
      · exact ⟨h.main, h.place, h.drawn, fun hne => absurd rfl hne⟩
      · exact h.covered hstate .rssi
    | screen s => exact h.covered (h.inSubMenu (by rw [hwaiting]; exact Waiting.noConfusion)) _

/-! ## 2. The law -/

/-- Every item of every sub-menu is carried out by the branch of its index. -/
theorem chosenAction_of_item {i j : Int} {items : List Bytes} {item : Bytes}
    (hmain : 1 ≤ i ∧ i ≤ 6) (hitems : menuItems i = some items) (h : itemAt items j = some item) :
    chosenAction i j = itemAction i item := by
  have hcases : i = 1 ∨ i = 2 ∨ i = 3 ∨ i = 4 ∨ i = 5 ∨ i = 6 := by omega
  have hall : ∀ k : Fin items.length, chosenAction i (k : Nat) = itemAction i (items.get k) := by
    rcases hcases with rfl | rfl | rfl | rfl | rfl | rfl <;> (cases hitems; decide)
  unfold itemAt at h
  split_ifs at h with hj
  obtain ⟨hlt, rfl⟩ := List.getElem?_eq_some_iff.mp h
  have hk := hall ⟨j.toNat, hlt⟩
  rwa [Int.toNat_of_nonneg hj] at hk

theorem rowY_injective {i j : Int} (h : rowY i = rowY j) : i = j := by
  unfold rowY at h
  omega

theorem Consistent.lawful {m : Menu} (h : m.Consistent) : m.Lawful := by
  refine ⟨fun hstate => ?_, fun hstate rows arrowY hdisplay => ?_,
    fun hstate rows arrowY item hdisplay hitem => ?_⟩
  · obtain ⟨hwindow, hlt⟩ := h.subMenuPlace hstate
    exact ⟨Int.le_trans hwindow.top_nonneg hwindow.top_le, hlt⟩
  · obtain ⟨hwindow, hlt⟩ := h.subMenuPlace hstate
    obtain ⟨items, hitems, hscreen⟩ := h.drawn hstate rows arrowY hdisplay
    cases hdisplay.symm.trans hscreen
    refine ⟨items, hitems, List.mem_map.mpr ⟨m.subMenuIndex, ?_, rfl⟩⟩
    exact (hwindow.selected_mem_rows_iff _).mpr hlt
  · obtain ⟨items, hitems, hscreen⟩ := h.drawn hstate rows arrowY hdisplay
    cases hdisplay.symm.trans hscreen
    obtain ⟨i, -, hrow⟩ := List.mem_map.mp hitem
    obtain ⟨hy, htext⟩ := Prod.mk.inj hrow
    have hi : i = m.subMenuIndex := by
      have hoffset : i - m.menuIndex = m.subMenuIndex - m.menuIndex := rowY_injective hy
      omega
    rw [hi] at htext
    exact chosenAction_of_item h.main hitems htext

/-- 'D' in "Read ID" leaves a sub-menu on the display without a chosen item. -/
theorem not_lawful_of_left {m : Menu} {e : MenuEvent} (h : ¬ m.StaysInReadID e) :
    ¬ (m.step e).Lawful := by
  obtain ⟨hwaiting, answer, rfl⟩ := not_not.mp h
  intro hlawful
  have hpoll : m.step (.poll (some .D) answer) = { m.backToSubMenu with subMenuIndex := -1 } := by
    show m.poll (some .D) answer = _
    unfold poll
    rw [hwaiting]
    exact if_pos rfl
  rw [hpoll] at hlawful
  have hstate : m.backToSubMenu.menuState = .subMenu := displaySubMenu_menuState _
  have hvalid : (0 : Int) ≤ -1 := (hlawful.valid hstate).1
  exact absurd hvalid (by decide)

/-- From boot, the menu executes what its arrow points at throughout a run exactly
when "Read ID" is never left. -/
theorem throughout_lawful_iff (es : List MenuEvent) :
    Machine.Throughout step Lawful boot es ↔ Machine.StepsOk step StaysInReadID boot es := by
  refine Machine.throughout_iff_stepsOk_of_invariant (fun m e hm _ hlawful => ?_)
    (fun m e hm _ => ?_) boot_consistent boot_consistent.lawful es
  · exact hm.step (Classical.byContradiction fun hleft => not_lawful_of_left hleft hlawful)
  · exact ⟨fun hlawful => Classical.byContradiction fun hleft => not_lawful_of_left hleft hlawful,
      fun hok => (hm.step hok).lawful⟩

/-- "Read ID" is opened and left: the arrow is in its row, the index is that of no item. -/
theorem arrow_lost_after_readRFID :
    let es : List MenuEvent :=
      [.poll (some .C) true, .poll (some .C) true, .poll (some .B) true, .poll (some .B) true,
        .poll (some .D) true]
    (Machine.run step boot es).menuState = .subMenu ∧
      (Machine.run step boot es).display =
        .subMenu [(26, some (ascii "Read ID")), (42, some (ascii "Remove"))] 26 ∧
      (Machine.run step boot es).subMenuIndex = -1 ∧
      ¬ Machine.Throughout step Lawful boot es := by
  intro es
  have hstate : (Machine.run step boot es).menuState = .subMenu := by decide
  have hindex : (Machine.run step boot es).subMenuIndex = -1 := by decide
  refine ⟨hstate, by decide, hindex, fun hlawful => ?_⟩
  have hvalid := ((hlawful es List.prefix_rfl).valid hstate).1
  rw [hindex] at hvalid
  exact absurd hvalid (by decide)

end Menu

end Handheld
