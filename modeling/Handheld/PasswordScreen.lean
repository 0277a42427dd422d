import Handheld.WifiList

/-!
# The password screen (`SettingWifi.h`, `SettingKeypad.h`)

`getTextInput` returns the text typed on 'B' and the text `"EXIT"` on 'D', and
`enterWiFiPassword` compares what it gets with `"EXIT"`.

Results:
1. `outcome_iff`: 'B' connects and 'D' returns to the list exactly when `"EXIT"`
   is not the text confirmed with 'B'.
2. `upper_of_typed_exit`: that text is typed in upper case only.
3. `run_password`: the program of the list screen has the same outcome.
-/

namespace Handheld

open ByteString

/-! ## Definitions -/

/-- What `enterWiFiPassword` ends with: `connectWifi`, or `showWiFiList`. -/
inductive PasswordOutcome
  | connectWifi (ssid password : Bytes)
  | showWiFiList
deriving DecidableEq, Repr

/-- `enterWiFiPassword`; `none` if the presses end before 'B' or 'D'. -/
def enterWiFiPassword (ssid : Bytes) (s : TextState) (ps : List Press) : Option PasswordOutcome :=
  match getTextInput s ps with
  | some (password, _, _) =>
    if password = ascii "EXIT" then some .showWiFiList else some (.connectWifi ssid password)
  | none => none

/-- The text in the field after the presses. -/
def typedText (s : TextState) (ps : List Press) : Bytes :=
  (Machine.run pressKey s.reset ps).inputText

/-- After the presses `ps` and the press `p`, which may end the input, the screen
has connected with the text typed if and only if `p` is 'B', and returned to the
list if and only if `p` is 'D'. -/
def Distinguished (ssid : Bytes) (s : TextState) (ps : List Press) (p : Press) : Prop :=
  (enterWiFiPassword ssid s (ps ++ [p]) = some (.connectWifi ssid (typedText s ps)) ↔ p.key = .B) ∧
    (enterWiFiPassword ssid s (ps ++ [p]) = some .showWiFiList ↔ p.key = .D)

/-! ## 1. Cancelling and confirming -/

section outcome

variable {s : TextState} {ps : List Press} {p : Press}

/-- The input ends with the text on 'B', with the marker on 'D', and not at all on another key. -/
theorem getTextInput_last (h : ∀ q ∈ ps, Stays q) :
    (getTextInput s (ps ++ [p])).map Prod.fst =
      match p.key with
      | .B => some (typedText s ps)
      | .D => some (ascii "EXIT")
      | _ => none := by
  rw [getTextInput, textLoop_append h, textLoop]
  cases p.key with
  | B => rfl
  | D => rfl
  | _ => rfl

theorem enterWiFiPassword_eq (ssid : Bytes) (s : TextState) (ps : List Press) :
    enterWiFiPassword ssid s ps = ((getTextInput s ps).map Prod.fst).map fun password =>
      if password = ascii "EXIT" then .showWiFiList else .connectWifi ssid password := by
  unfold enterWiFiPassword
  cases getTextInput s ps with
  | none => rfl
  | some result =>
    simp only [Option.map_some]
    split <;> rfl

/-- Confirming and cancelling are told apart exactly when `"EXIT"` is not confirmed. -/
theorem outcome_iff (ssid : Bytes) (s : TextState) (ps : List Press) (p : Press)
    (h : ∀ q ∈ ps, Stays q) :
    Distinguished ssid s ps p ↔ (p.key = .B → typedText s ps ≠ ascii "EXIT") := by
  unfold Distinguished
  rw [enterWiFiPassword_eq, getTextInput_last h]
  cases p.key with
  | B =>
    simp only [Option.map_some, true_imp_iff]
    by_cases hexit : typedText s ps = ascii "EXIT"
    · rw [if_pos hexit]
      simp [hexit]
    · rw [if_neg hexit]
      simp [hexit]
  | D => simp
  | _ => simp

end outcome

/-- '2' and 'B': the password is `2`. -/
theorem outcome_iff_digit :
    Distinguished (ascii "home") .boot [⟨.digit 2, 0⟩] ⟨.B, 100⟩ ↔
      ((⟨.B, 100⟩ : Press).key = .B → typedText .boot [⟨.digit 2, 0⟩] ≠ ascii "EXIT") :=
  outcome_iff (ascii "home") .boot [⟨.digit 2, 0⟩] ⟨.B, 100⟩ (by decide)

/-- Upper case, then three presses of '3', three of '9', four of '4' and two of
'8': the password `EXIT`, confirmed with 'B', is taken for 'D'. -/
theorem exit_confirmed :
    let ps : List Press :=
      [⟨.hash, 0⟩, ⟨.digit 3, 100⟩, ⟨.digit 3, 200⟩, ⟨.digit 3, 300⟩, ⟨.digit 9, 400⟩,
       ⟨.digit 9, 500⟩, ⟨.digit 9, 600⟩, ⟨.digit 4, 700⟩, ⟨.digit 4, 800⟩, ⟨.digit 4, 900⟩,
       ⟨.digit 4, 1000⟩, ⟨.digit 8, 1100⟩, ⟨.digit 8, 1200⟩]
    typedText .boot ps = ascii "EXIT" ∧
      enterWiFiPassword (ascii "home") .boot (ps ++ [⟨.B, 1300⟩]) = some .showWiFiList ∧
      ¬ ∀ (ssid : Bytes) (s : TextState) (ps : List Press) (p : Press), (∀ q ∈ ps, Stays q) →
        Distinguished ssid s ps p := by
  intro ps
  have hlist : enterWiFiPassword (ascii "home") .boot (ps ++ [⟨.B, 1300⟩]) = some .showWiFiList := by
    decide
  refine ⟨by decide, hlist, fun h => ?_⟩
  have hD := (h (ascii "home") .boot ps ⟨.B, 1300⟩ (by decide)).2.mp hlist
  exact absurd hD (by decide)

/-! ## 2. How the marker is typed -/

/-- The text in the field is that of the surviving runs. -/
theorem typedText_eq {ps : List Press} (h : ∀ q ∈ ps, Stays q) (s : TextState) :
    typedText s ps = (survivingRuns s.uppercase ps).map Run.typed := by
  have htyped := getTextInput_eq_typed s h 0 []
  rw [getTextInput_last h] at htyped
  exact Option.some.inj htyped

theorem toLower_toLower (c : UInt8) : toLower (toLower c) = toLower c := by
  have hother : ¬ (65 ≤ toLower c ∧ toLower c ≤ 90) := by
    unfold toLower
    split
    · next hupper =>
      rintro ⟨-, hle⟩
      obtain ⟨hlow, hhigh⟩ := hupper
      rw [UInt8.le_iff_toNat_le] at hle hlow hhigh
      rw [UInt8.toNat_add] at hle
      have h32 : (32 : UInt8).toNat = 32 := rfl
      have h65 : (65 : UInt8).toNat = 65 := rfl
      have h90 : (90 : UInt8).toNat = 90 := rfl
      omega
    · next hother => exact hother
  rw [toLower, if_neg hother]

/-- Every character of the marker is typed in upper case. -/
theorem upper_of_typed_exit {s : TextState} {ps : List Press} (h : ∀ q ∈ ps, Stays q)
    (hexit : typedText s ps = ascii "EXIT") : ∀ r ∈ survivingRuns s.uppercase ps, r.upper = true := by
  intro r hr
  rw [typedText_eq h] at hexit
  have hmem : r.typed ∈ ascii "EXIT" := hexit ▸ List.mem_map_of_mem hr
  have hmarker : (ascii "EXIT").all (fun c => toLower c != c) = true := by decide
  cases hupper : r.upper with
  | true => rfl
  | false =>
    have hchanged := List.all_eq_true.mp hmarker _ hmem
    unfold Run.typed letterCase at hchanged
    rw [hupper] at hchanged
    exact absurd (toLower_toLower _) (bne_iff_ne.mp hchanged)

/-! ## 3. The list screen -/

/-- The end of the password screen in the program of the list. -/
def Screen.conclude (s : Screen) : PasswordOutcome → Screen
  | .connectWifi ssid password =>
    { s with connects := s.connects ++ [(ssid, password)], stack := [] }
  | .showWiFiList => s.showWiFiList

theorem submit_eq_conclude (s : Screen) (ssid password : Bytes) :
    s.submit ssid password =
      s.conclude (if password = ascii "EXIT" then .showWiFiList else .connectWifi ssid password) := by
  unfold Screen.submit
  split <;> rfl

section program

variable {ssid : Bytes} {rest : List Activation}

theorem go_password {s : Screen} (hstack : s.stack = .password ssid :: rest) (p : Press) :
    s.go (some p) = s.typePassword ssid p := by
  unfold Screen.go
  split
  · next hnil => cases hstack.symm.trans hnil
  · next hlist => cases hstack.symm.trans hlist
  · next hlist => cases hstack.symm.trans hlist
  · next hlist => cases hstack.symm.trans hlist
  · next ssid' _ hpassword =>
    obtain rfl : ssid = ssid' := by
      cases hstack.symm.trans hpassword
      rfl
    rfl

theorem typePassword_of_stays (s : Screen) (ssid : Bytes) {p : Press} (hp : Stays p) :
    s.typePassword ssid p = { s with text := pressKey s.text p } := by
  unfold Screen.typePassword
  split
  · next hB => exact absurd hB hp.1
  · next hD => exact absurd hD hp.2
  · rfl

/-- Keys that stay in the screen are typed. -/
theorem run_typed {ps : List Press} (h : ∀ q ∈ ps, Stays q) :
    ∀ {s : Screen}, s.stack = .password ssid :: rest →
      Machine.run Screen.go s (ps.map some) =
        { s with text := Machine.run pressKey s.text ps } := by
  induction ps with
  | nil => exact fun _ => rfl
  | cons p ps ih =>
    intro s hstack
    have hgo : s.go (some p) = { s with text := pressKey s.text p } := by
      rw [go_password hstack, typePassword_of_stays s ssid (h p List.mem_cons_self)]
    have hrest : Machine.run Screen.go { s with text := pressKey s.text p } (ps.map some) =
        { s with text := Machine.run pressKey (pressKey s.text p) ps } :=
      ih (fun q hq => h q (List.mem_cons_of_mem p hq)) hstack
    rw [List.map_cons, Machine.run_cons, hgo, hrest, Machine.run_cons]

/-- From the password screen, opened with the text state `text`, the program of
the list ends with what `enterWiFiPassword` ends with. -/
theorem run_password {s : Screen} {text : TextState} (hstack : s.stack = .password ssid :: rest)
    (htext : s.text = text.reset) {ps : List Press} (h : ∀ q ∈ ps, Stays q) {p : Press}
    (hp : ¬ Stays p) :
    ∃ outcome, enterWiFiPassword ssid text (ps ++ [p]) = some outcome ∧
      Machine.run Screen.go s ((ps ++ [p]).map some) =
        ({ s with text := Machine.run pressKey text.reset ps } : Screen).conclude outcome := by
  have hlast : Machine.run Screen.go
      { s with text := Machine.run pressKey text.reset ps } [some p] =
      ({ s with text := Machine.run pressKey text.reset ps } : Screen).typePassword ssid p :=
    go_password (s := { s with text := Machine.run pressKey text.reset ps }) hstack p
  rw [enterWiFiPassword_eq, getTextInput_last h, List.map_append, Machine.run_append,
    run_typed h hstack, htext, List.map_singleton, hlast]
  unfold Stays at hp
  unfold Screen.typePassword
  cases hkey : p.key with
  | B => exact ⟨_, rfl, submit_eq_conclude _ ssid _⟩
  | D => exact ⟨_, rfl, submit_eq_conclude _ ssid _⟩
  | _ => exact absurd (by simp [hkey]) hp

end program

end Handheld
