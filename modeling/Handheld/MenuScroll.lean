import Handheld.Menu

/-!
# Scrolling in the menu (`Menu.h`)

The keys 'A' and 'C' move the arrow of a sub-menu, and of a second-level menu,
round the items. `SubMenus` is a table of sub-menus in the place of the program's.

Results:
1. `handleKeypad_program`: with the program's table, these are the branches of
   `handleKeypad`.
2. `scroll_cyclic`: the arrow counts the keys modulo the size, and the window of
   a sub-menu stays around it and on the list.
-/

namespace Handheld

open ByteString ListCursor

/-! ## Definitions -/

/-- The items of the sub-menus, and the table `subMenuSize`. -/
structure SubMenus where
  menuItems : Int → Option (List Bytes)
  subMenuSize : Int → Int
  pos : ∀ i, 1 ≤ i → i ≤ maxMenu → 1 ≤ subMenuSize i

namespace SubMenus

/-- The table of the program. -/
def program : SubMenus where
  menuItems := Handheld.menuItems
  subMenuSize := Handheld.subMenuSize
  pos i h1 h6 := by
    obtain ⟨items, -, -, hpos⟩ := Menu.menuItems_of_main ⟨h1, h6⟩
    exact hpos

/-- `displaySubMenu` with the table. -/
def displaySubMenu (t : SubMenus) (m : Menu) : Menu :=
  match t.menuItems m.mainMenuIndex with
  | some items => m.displayMenu items (t.subMenuSize m.mainMenuIndex)
  | none => m

/-- `handleKeypad` with the table in the branches that move the arrow. -/
def handleKeypad (t : SubMenus) (m : Menu) (key : Option Key) (answer : Bool) : Menu :=
  match key, m.menuState with
  | some .A, .subMenu =>
    t.displaySubMenu (m.setCursor (m.cursor.upRound (t.subMenuSize m.mainMenuIndex)))
  | some .C, .subMenu =>
    t.displaySubMenu (m.setCursor (m.cursor.downRound (t.subMenuSize m.mainMenuIndex)))
  | some .B, .mainMenu => t.displaySubMenu (({ m with menuState := .subMenu } : Menu).setCursor .start)
  | _, _ => m.handleKeypad key answer

/-- The keys, one after the other. -/
def press (t : SubMenus) (answer : Bool) (m : Menu) (keys : List Key) : Menu :=
  Machine.run (fun m key => t.handleKeypad m (some key) answer) m keys

end SubMenus

/-- The keys that move an arrow. -/
def Scrolls (key : Key) : Prop := key = .A ∨ key = .C

/-- By how much the keys move the arrow down. -/
def scrolled (keys : List Key) : Int := keys.count .C - keys.count .A

/-- The arrow is `i` items down from the first one, counted round a menu of `size` items. -/
structure Menu.ScrolledBy (size i : Int) (m : Menu) : Prop where
  inSubMenu : m.menuState = .subMenu
  index : m.subMenuIndex = i % size
  window : 0 ≤ m.menuIndex ∧ m.menuIndex ≤ m.subMenuIndex ∧ m.subMenuIndex ≤ m.menuIndex + 2
  onList : m.menuIndex ≤ max 0 (size - 3)

/-! ## 1. The program's table -/

/-- With the program's table these are the branches of the program. -/
theorem SubMenus.handleKeypad_program (m : Menu) (key : Option Key) (answer : Bool) :
    SubMenus.program.handleKeypad m key answer = m.handleKeypad key answer := by
  unfold SubMenus.handleKeypad
  split
  · next hstate => simp only [Menu.handleKeypad, hstate]; rfl
  · next hstate => simp only [Menu.handleKeypad, hstate]; rfl
  · next hstate => simp only [Menu.handleKeypad, hstate]; rfl
  · rfl

/-! ## 2. The arrow -/

/-! ### Sub-menus -/

section arrow

variable (t : SubMenus)

@[simp] theorem SubMenus.displaySubMenu_mainMenuIndex (m : Menu) :
    (t.displaySubMenu m).mainMenuIndex = m.mainMenuIndex := by
  unfold SubMenus.displaySubMenu
  cases t.menuItems m.mainMenuIndex <;> rfl

@[simp] theorem SubMenus.displaySubMenu_cursor (m : Menu) :
    (t.displaySubMenu m).cursor = m.cursor := by
  unfold SubMenus.displaySubMenu
  cases t.menuItems m.mainMenuIndex <;> rfl

@[simp] theorem SubMenus.displaySubMenu_menuState (m : Menu) :
    (t.displaySubMenu m).menuState = m.menuState := by
  unfold SubMenus.displaySubMenu
  cases t.menuItems m.mainMenuIndex <;> rfl

/-- The arrow of the sub-menu number `index` is on item `i`, counted round. -/
structure SubMenus.ArrowAt (index i : Int) (m : Menu) : Prop where
  main : m.mainMenuIndex = index
  state : m.menuState = .subMenu
  onList : m.cursor.OnList (t.subMenuSize index)
  selected : m.cursor.selected = i % t.subMenuSize index

variable {t} {index i : Int} {m : Menu}

/-- A sub-menu that is drawn with the arrow moved to `c`. -/
theorem SubMenus.arrowAt_drawn {c : Cursor} (hmain : m.mainMenuIndex = index)
    (hstate : m.menuState = .subMenu) (hc : c.OnList (t.subMenuSize index))
    (hselected : c.selected = i % t.subMenuSize index) :
    t.ArrowAt index i (t.displaySubMenu (m.setCursor c)) where
  main := by
    rw [displaySubMenu_mainMenuIndex]
    exact hmain
  state := by
    rw [displaySubMenu_menuState]
    exact hstate
  onList := by
    rw [displaySubMenu_cursor]
    exact hc
  selected := by
    rw [displaySubMenu_cursor]
    exact hselected

theorem SubMenus.ArrowAt.up (h : t.ArrowAt index i m) (answer : Bool) :
    t.ArrowAt index (i - 1) (t.handleKeypad m (some .A) answer) := by
  have hkey : t.handleKeypad m (some .A) answer =
      t.displaySubMenu (m.setCursor (m.cursor.upRound (t.subMenuSize index))) := by
    unfold SubMenus.handleKeypad
    rw [h.state, h.main]
  rw [hkey]
  refine arrowAt_drawn h.main h.state h.onList.upRound ?_
  rw [h.onList.selected_upRound, h.selected, Int.emod_sub_emod]

theorem SubMenus.ArrowAt.down (h : t.ArrowAt index i m) (answer : Bool) :
    t.ArrowAt index (i + 1) (t.handleKeypad m (some .C) answer) := by
  have hkey : t.handleKeypad m (some .C) answer =
      t.displaySubMenu (m.setCursor (m.cursor.downRound (t.subMenuSize index))) := by
    unfold SubMenus.handleKeypad
    rw [h.state, h.main]
  rw [hkey]
  refine arrowAt_drawn h.main h.state h.onList.downRound ?_
  rw [h.onList.selected_downRound, h.selected, Int.emod_add_emod]

/-- The sub-menu is entered on its first item. -/
theorem SubMenus.arrowAt_entered (hmain : 1 ≤ m.mainMenuIndex ∧ m.mainMenuIndex ≤ maxMenu)
    (hstate : m.menuState = .mainMenu) (answer : Bool) :
    t.ArrowAt m.mainMenuIndex 0 (t.handleKeypad m (some .B) answer) := by
  have hkey : t.handleKeypad m (some .B) answer =
      t.displaySubMenu (({ m with menuState := .subMenu } : Menu).setCursor .start) := by
    unfold SubMenus.handleKeypad
    rw [hstate]
  rw [hkey]
  refine arrowAt_drawn rfl rfl (onList_start (t.pos _ hmain.1 hmain.2)) ?_
  rw [Int.zero_emod]
  rfl

theorem scrolled_nil : scrolled [] = 0 := rfl

theorem scrolled_up (keys : List Key) : scrolled (.A :: keys) = scrolled keys - 1 := by
  have hcount : (Key.A :: keys).count .C = keys.count .C := List.count_cons_of_ne (by decide)
  unfold scrolled
  rw [hcount, List.count_cons_self]
  omega

theorem scrolled_down (keys : List Key) : scrolled (.C :: keys) = scrolled keys + 1 := by
  have hcount : (Key.C :: keys).count .A = keys.count .A := List.count_cons_of_ne (by decide)
  unfold scrolled
  rw [hcount, List.count_cons_self]
  omega

/-- A law `P i` that 'A' takes to `i - 1` and 'C' to `i + 1` counts the keys. -/
theorem SubMenus.press_of_steps {P : Int → Menu → Prop} {answer : Bool}
    (hup : ∀ i m, P i m → P (i - 1) (t.handleKeypad m (some .A) answer))
    (hdown : ∀ i m, P i m → P (i + 1) (t.handleKeypad m (some .C) answer)) {keys : List Key}
    (hkeys : ∀ key ∈ keys, Scrolls key) (h : P i m) :
    P (i + scrolled keys) (t.press answer m keys) := by
  induction keys generalizing i m with
  | nil =>
    rw [scrolled_nil, Int.add_zero]
    exact h
  | cons key keys ih =>
    have hrest : ∀ key ∈ keys, Scrolls key := fun k hk => hkeys k (List.mem_cons_of_mem key hk)
    rcases hkeys key List.mem_cons_self with rfl | rfl
    · have hnext := ih hrest (hup i m h)
      rwa [show i - 1 + scrolled keys = i + scrolled (.A :: keys) by rw [scrolled_up]; omega] at hnext
    · have hnext := ih hrest (hdown i m h)
      rwa [show i + 1 + scrolled keys = i + scrolled (.C :: keys) by rw [scrolled_down]; omega] at hnext

end arrow

/-! ### Second-level menus -/

/-- The arrow of a second-level menu of `n` items is on item `i`, counted round. -/
structure Menu.ArrowAt2 (n i : Int) (m : Menu) : Prop where
  state : m.menuState = .subMenuLevel2
  size : m.subMenu2Size = n
  index : m.subMenu2Index = i % n

section arrow2

variable {t : SubMenus} {n i : Int} {m : Menu}

theorem Menu.displaySubMenuLevel2_fields (m : Menu) :
    m.displaySubMenuLevel2.menuState = m.menuState ∧
      m.displaySubMenuLevel2.subMenu2Size = m.subMenu2Size ∧
      m.displaySubMenuLevel2.subMenu2Index = m.subMenu2Index := by
  unfold displaySubMenuLevel2
  cases m.subMenu2Items <;> exact ⟨rfl, rfl, rfl⟩

/-- A second-level menu that has just been drawn. -/
theorem Menu.arrowAt2_drawn (hstate : m.menuState = .subMenuLevel2) (hsize : m.subMenu2Size = n)
    (hindex : m.subMenu2Index = i % n) : m.displaySubMenuLevel2.ArrowAt2 n i := by
  obtain ⟨hstate', hsize', hindex'⟩ := displaySubMenuLevel2_fields m
  exact ⟨hstate'.trans hstate, hsize'.trans hsize, hindex'.trans hindex⟩

theorem Menu.ArrowAt2.up (hpos : 1 ≤ n) (h : m.ArrowAt2 n i) (answer : Bool) :
    (t.handleKeypad m (some .A) answer).ArrowAt2 n (i - 1) := by
  have hkey : t.handleKeypad m (some .A) answer = displaySubMenuLevel2 { m with
      subMenu2Index := if m.subMenu2Index > 0 then m.subMenu2Index - 1 else m.subMenu2Size - 1 } := by
    unfold SubMenus.handleKeypad Menu.handleKeypad
    rw [h.state]
  rw [hkey]
  refine arrowAt2_drawn h.state h.size ?_
  show (if m.subMenu2Index > 0 then m.subMenu2Index - 1 else m.subMenu2Size - 1) = _
  rw [h.size, h.index, ← Int.emod_sub_emod]
  exact pred_round (Int.emod_nonneg i (by omega)) (Int.emod_lt_of_pos i hpos)

theorem Menu.ArrowAt2.down (hpos : 1 ≤ n) (h : m.ArrowAt2 n i) (answer : Bool) :
    (t.handleKeypad m (some .C) answer).ArrowAt2 n (i + 1) := by
  have hkey : t.handleKeypad m (some .C) answer = displaySubMenuLevel2 { m with
      subMenu2Index := if m.subMenu2Index < m.subMenu2Size - 1 then m.subMenu2Index + 1 else 0 } := by
    unfold SubMenus.handleKeypad Menu.handleKeypad
    rw [h.state]
  rw [hkey]
  refine arrowAt2_drawn h.state h.size ?_
  show (if m.subMenu2Index < m.subMenu2Size - 1 then m.subMenu2Index + 1 else 0) = _
  rw [h.size, h.index, ← Int.emod_add_emod]
  exact succ_round (Int.emod_nonneg i (by omega)) (Int.emod_lt_of_pos i hpos)

theorem Menu.arrowAt2_opened (m : Menu) (items : List Bytes) (size : Int) (callback : SubMenu2) :
    (m.openSubMenuLevel2 items size callback).ArrowAt2 size 0 :=
  @arrowAt2_drawn size 0 (Menu.mk ..) rfl rfl (Int.zero_emod size).symm

end arrow2

/-- With any table of sub-menus, and in a second-level menu of any size, the
arrow counts the keys 'C' and 'A' modulo the size, and the window stays on the list. -/
theorem scroll_cyclic (t : SubMenus) (m : Menu) (answer : Bool) (keys : List Key)
    (hkeys : ∀ key ∈ keys, Scrolls key) :
    (m.menuState = .mainMenu → 1 ≤ m.mainMenuIndex → m.mainMenuIndex ≤ maxMenu →
      (t.press answer m (.B :: keys)).ScrolledBy (t.subMenuSize m.mainMenuIndex) (scrolled keys)) ∧
    (∀ (items : List Bytes) (size : Int) (callback : SubMenu2), 1 ≤ size →
      (t.press answer (m.openSubMenuLevel2 items size callback) keys).ArrowAt2 size
        (scrolled keys)) := by
  constructor
  · intro hstate h1 h6
    have hentered := SubMenus.arrowAt_entered (t := t) ⟨h1, h6⟩ hstate answer
    have hrun := SubMenus.press_of_steps (P := t.ArrowAt m.mainMenuIndex)
      (fun i m h => h.up answer) (fun i m h => h.down answer) hkeys hentered
    rw [Int.zero_add] at hrun
    obtain ⟨-, hstate', hlist, hselected⟩ := hrun
    exact ⟨hstate', hselected, ⟨hlist.top_nonneg, hlist.top_le, hlist.le_top⟩, hlist.top_le_last⟩
  · intro items size callback hpos
    have hrun := SubMenus.press_of_steps (t := t) (P := Menu.ArrowAt2 size)
      (fun i m h => h.up hpos answer) (fun i m h => h.down hpos answer) hkeys
      (m.arrowAt2_opened items size callback)
    rwa [Int.zero_add] at hrun

/-- The menu of the networks, two down and one up. -/
theorem scroll_cyclic_wifi :
    (SubMenus.program.press true .boot [.B, .C, .C, .A]).ScrolledBy (subMenuSize 1)
      (scrolled [.C, .C, .A]) :=
  (scroll_cyclic .program .boot true [.C, .C, .A] (by simp [Scrolls])).1 rfl (by decide) (by decide)

end Handheld
