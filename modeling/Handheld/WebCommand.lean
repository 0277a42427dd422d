import Handheld.Network

/-!
# Texts for the command callback (`WebSerialMonitor.cpp`, `deviceServer.h`)

`handleEvent` trims the text it receives and hands it to the callback. The
`wifi` branch calls `server.end()` first and then cuts the text at its first two
dashes, wherever they are.

Results:
1. `wifiArgs_eq` and `wifiArgs_eq_none_iff`: what the branch makes of a text.
2. `malformed_unaffected_iff`: exactly when a text that is no command has no effect.
3. `begins_credentials_iff`: exactly which SSIDs and passwords reach
   `WiFi.begin` as they were sent, and `no_decoder`: no other way to read the
   text would carry them all.
-/

namespace Handheld

open ByteString

namespace Network

/-! ## Definitions -/

/-- The branch `WS_EVT_DATA` of `handleEvent`: `received.trim()` and the callback. -/
def handleEvent (data : Bytes) (linkUp : Bool) (r : ScanResult) (s : Network) : Network :=
  s.step (.command (trim data) linkUp r)

/-- The documented form `wifi-<SSID>-<PASSWORD>`. -/
def IsWifiCommand (received : Bytes) : Prop :=
  ∃ ssid pass, ssid ≠ [] ∧ received = ascii "wifi-" ++ ssid ++ dash :: pass

/-- The text is none of the three commands. -/
structure Malformed (received : Bytes) : Prop where
  not_reboot : equalsIgnoreCase received (ascii "reboot") = false
  not_scan : equalsIgnoreCase received (ascii "scan wifi") = false
  not_wifi : ¬ IsWifiCommand received

/-- No call of `WiFi.begin`, and the radio mode and the listening state as they were. -/
structure Unaffected (s t : Network) : Prop where
  begins : t.begins = s.begins
  staMode : t.staMode = s.staMode
  apMode : t.apMode = s.apMode
  listening : t.listening = s.listening

/-- Printable ASCII. -/
def IsPrintable (s : Bytes) : Prop := ∀ c ∈ s, 32 ≤ c.toNat ∧ c.toNat ≤ 126

instance (s : Bytes) : Decidable (IsPrintable s) := List.decidableBAll _ s

/-- An SSID and a WPA password that a network can have. -/
structure Credentials where
  ssid : Bytes
  pass : Bytes
  ssid_length : 1 ≤ ssid.length ∧ ssid.length ≤ 32
  pass_length : 8 ≤ pass.length ∧ pass.length ≤ 63
  ssid_printable : IsPrintable ssid
  pass_printable : IsPrintable pass

/-- The text that asks to connect: `"wifi-" + s + "-" + p`. -/
def Credentials.text (c : Credentials) : Bytes := ascii "wifi-" ++ c.ssid ++ dash :: c.pass

/-! ## 1. The two dashes -/

section wifiArgs

variable {a ssid : Bytes}

theorem indexOf_first (ha : dash ∉ a) (post : Bytes) :
    indexOf (a ++ dash :: post) dash 0 = a.length := by
  have h : indexOf ([] ++ (a ++ dash :: post)) dash ([] : Bytes).length = _ := indexOf_append ha post
  simpa using h

/-- The search for the second dash begins behind the first one. -/
theorem indexOf_second (ha : dash ∉ a) (post : Bytes) :
    indexOf (a ++ dash :: post) dash (indexOf (a ++ dash :: post) dash 0 + 1).toNat =
      indexOf ((a ++ [dash]) ++ post) dash (a ++ [dash]).length := by
  rw [indexOf_first ha, List.append_assoc, List.singleton_append, List.length_append]
  rfl

theorem wifiArgs_eq (ha : dash ∉ a) (hssid : dash ∉ ssid) (pass : Bytes) :
    wifiArgs (a ++ dash :: (ssid ++ dash :: pass)) = some (ssid, pass) := by
  have hcut : a ++ dash :: (ssid ++ dash :: pass) = (a ++ [dash]) ++ (ssid ++ dash :: pass) := by
    simp
  have hcut' : (a ++ [dash]) ++ (ssid ++ dash :: pass) =
      ((a ++ [dash]) ++ (ssid ++ [dash])) ++ pass := by simp
  have hlen : (a ++ [dash]).length = a.length + 1 := List.length_append
  have hsecond := indexOf_second ha (ssid ++ dash :: pass)
  rw [indexOf_append hssid] at hsecond
  unfold wifiArgs
  simp only [hsecond]
  rw [indexOf_first ha, if_pos (by rw [hlen]; omega)]
  have hfirst : ((a.length : Int) + 1).toNat = (a ++ [dash]).length := by
    rw [hlen]
    rfl
  have hpass : (a ++ [dash]).length + ssid.length + 1 =
      ((a ++ [dash]) ++ (ssid ++ [dash])).length := by
    simp only [List.length_append, List.length_singleton]
    omega
  rw [hfirst, Int.toNat_natCast, hcut, substring_append, substringFrom, hpass, hcut', List.drop_left]

/-- The branch finds no arguments in a text with fewer than two dashes. -/
theorem wifiArgs_eq_none_iff {cmd : Bytes} : wifiArgs cmd = none ↔ cmd.count dash ≤ 1 := by
  by_cases hone : dash ∈ cmd
  · obtain ⟨a, rest, rfl, ha⟩ := List.eq_append_cons_of_mem hone
    have hcount : (a ++ dash :: rest).count dash = rest.count dash + 1 := by
      rw [List.count_append, List.count_eq_zero.mpr ha, List.count_cons_self, Nat.zero_add]
    by_cases htwo : dash ∈ rest
    · obtain ⟨ssid, pass, rfl, hssid⟩ := List.eq_append_cons_of_mem htwo
      have hpos := List.count_pos_iff.mpr htwo
      rw [wifiArgs_eq ha hssid, hcount]
      exact iff_of_false (Option.some_ne_none _) (by omega)
    · have hsecond := indexOf_second ha rest
      rw [indexOf_eq_neg_one htwo] at hsecond
      unfold wifiArgs
      simp only [hsecond]
      rw [hcount, List.count_eq_zero.mpr htwo]
      exact iff_of_true rfl (Nat.le_refl 1)
  · have hfirst : indexOf ([] ++ cmd) dash ([] : Bytes).length = -1 := indexOf_eq_neg_one hone
    rw [List.nil_append, List.length_nil] at hfirst
    unfold wifiArgs
    simp only [hfirst]
    rw [List.count_eq_zero.mpr hone]
    refine iff_of_true ?_ (Nat.zero_le 1)
    show (if indexOf cmd dash 0 > 0 then _ else none) = none
    rw [hfirst]
    rfl

end wifiArgs

/-! ## 2. Texts that are no command -/

theorem not_unaffected_of_begin {s t : Network} {args : Bytes × Bytes}
    (h : t.begins = s.begins ++ [args]) : ¬ Unaffected s t := by
  intro hun
  have hlen := congrArg List.length (h.symm.trans hun.begins)
  rw [List.length_append] at hlen
  exact absurd hlen (by simp)

theorem wifiCommand_begins (cmd : Bytes) (linkUp : Bool) (s : Network) :
    (s.wifiCommand cmd linkUp).begins = s.begins ++ (wifiArgs cmd).toList := by
  unfold wifiCommand
  cases wifiArgs cmd with
  | none => exact (List.append_nil _).symm
  | some args => cases linkUp <;> rfl

/-- The `wifi` branch has no effect exactly on a server that is not listening,
for a text with fewer than two dashes. -/
theorem wifiCommand_unaffected_iff (cmd : Bytes) (linkUp : Bool) (s : Network) :
    Unaffected s (s.wifiCommand cmd linkUp) ↔ s.listening = false ∧ cmd.count dash ≤ 1 := by
  rw [← wifiArgs_eq_none_iff]
  have hbegins := wifiCommand_begins cmd linkUp s
  cases hargs : wifiArgs cmd with
  | none =>
    have hend : s.wifiCommand cmd linkUp = s.serverEnd := by
      unfold wifiCommand
      simp only [hargs]
    rw [hend]
    constructor
    · exact fun h => ⟨h.listening.symm, rfl⟩
    · exact fun h => ⟨rfl, rfl, rfl, h.1.symm⟩
  | some args =>
    rw [hargs] at hbegins
    exact iff_of_false (not_unaffected_of_begin hbegins) fun h => Option.some_ne_none args h.2

theorem Unaffected.refl (s : Network) : Unaffected s s := ⟨rfl, rfl, rfl, rfl⟩

theorem not_isWifiCommand_of_count {received : Bytes} (h : received.count dash ≤ 1) :
    ¬ IsWifiCommand received := by
  rintro ⟨ssid, pass, -, rfl⟩
  have hwifi : (ascii "wifi-").count dash = 1 := by decide
  rw [List.append_assoc, List.count_append, hwifi, List.count_append, List.count_cons_self] at h
  omega

theorem malformed_help : Malformed (trim (ascii "help")) :=
  ⟨by decide, by decide, not_isWifiCommand_of_count (by decide)⟩

/-- Trimming the text reaches the end of the password only. -/
theorem Credentials.trim_text (c : Credentials) :
    trim c.text = ascii "wifi" ++ dash :: (c.ssid ++ dash :: c.pass.rdropWhile isSpace) := by
  have htext : c.text = 'w'.toUInt8 :: ((ascii "ifi-" ++ c.ssid) ++ dash :: c.pass) := rfl
  rw [htext, trim_cons_append (by decide) (by decide), List.append_assoc]
  rfl

/-- White space among the printable characters is the space. -/
theorem isSpace_iff_of_printable {c : UInt8} (hlow : 32 ≤ c.toNat) : isSpace c = true ↔ c = 32 := by
  constructor
  · intro hspace
    unfold isSpace at hspace
    rcases Bool.or_eq_true_iff.mp hspace with heq | hrange
    · exact eq_of_beq heq
    · have hhigh : c ≤ 13 := by simpa using (Bool.and_eq_true_iff.mp hrange).2
      exact absurd (Nat.le_trans hlow (UInt8.le_iff_toNat_le.mp hhigh)) (by decide)
  · rintro rfl
    rfl

theorem Credentials.pass_trimmed_iff (c : Credentials) :
    c.pass.rdropWhile isSpace = c.pass ↔ c.pass.getLast? ≠ some 32 := by
  have hne : c.pass ≠ [] := List.ne_nil_of_length_pos (Nat.lt_of_lt_of_le (by decide) c.pass_length.1)
  have hlast : c.pass.getLast? = some (c.pass.getLast hne) := List.getLast?_eq_some_getLast hne
  have hspace := isSpace_iff_of_printable (c.pass_printable _ (List.getLast_mem hne)).1
  rw [List.rdropWhile_eq_self_iff, hlast]
  constructor
  · exact fun h heq => h hne (hspace.mpr (Option.some.inj heq))
  · exact fun h _ hs => h (congrArg some (hspace.mp hs))

/-- The arguments that the branch finds are those that were sent exactly when the
SSID has no dash and trimming leaves the password. -/
theorem Credentials.wifiArgs_text_iff (c : Credentials) :
    wifiArgs (trim c.text) = some (c.ssid, c.pass) ↔
      dash ∉ c.ssid ∧ c.pass.getLast? ≠ some 32 := by
  have hwifi : dash ∉ ascii "wifi" := by decide
  rw [c.trim_text, ← c.pass_trimmed_iff]
  by_cases hdash : dash ∈ c.ssid
  · -- the SSID is cut at its own first dash
    obtain ⟨a, b, hssid, ha⟩ := List.eq_append_cons_of_mem hdash
    refine iff_of_false (fun h => ?_) fun h => h.1 hdash
    rw [hssid, List.append_assoc, List.cons_append, wifiArgs_eq hwifi ha] at h
    have hlen := congrArg List.length (Prod.mk.inj (Option.some.inj h)).1
    rw [List.length_append, List.length_cons] at hlen
    omega
  · rw [wifiArgs_eq hwifi hdash, Option.some.injEq, Prod.mk.injEq]
    exact ⟨fun h => ⟨hdash, h.2⟩, fun h => ⟨rfl, h.2⟩⟩

theorem Credentials.takesWifiBranch (c : Credentials) : TakesWifiBranch (trim c.text) := by
  rw [c.trim_text]
  exact ⟨rfl, rfl⟩

/-- The credentials reach `WiFi.begin` as they were sent exactly when the SSID has
no dash and the password does not end with a space. -/
theorem begins_credentials_iff (s : Network) (c : Credentials) (linkUp : Bool) (r : ScanResult)
    (hcallback : s.cmdCallback = true) :
    (s.handleEvent c.text linkUp r).begins = s.begins ++ [(c.ssid, c.pass)] ↔
      dash ∉ c.ssid ∧ c.pass.getLast? ≠ some 32 := by
  obtain ⟨hreboot, hwifi⟩ := c.takesWifiBranch
  have hbranch : s.handleEvent c.text linkUp r = s.wifiCommand (trim c.text) linkUp := by
    unfold handleEvent step cmdFromWeb
    simp only [hcallback, hreboot, hwifi, ↓reduceIte, Bool.false_eq_true]
  rw [hbranch, wifiCommand_begins, List.append_right_inj, ← c.wifiArgs_text_iff]
  cases wifiArgs (trim c.text) with
  | none => simp
  | some args => simp

/-- A network whose name has no dash. -/
def Credentials.home : Credentials :=
  ⟨ascii "home", ascii "12-45 78", by decide, by decide, by decide, by decide⟩

theorem begins_credentials_iff_home :
    ((Network.boot.wiFiAutoConnect true).handleEvent Credentials.home.text true
        ⟨0, fun _ => []⟩).begins =
      (Network.boot.wiFiAutoConnect true).begins ++ [(Credentials.home.ssid, Credentials.home.pass)] ↔
      dash ∉ Credentials.home.ssid ∧ Credentials.home.pass.getLast? ≠ some 32 :=
  begins_credentials_iff _ Credentials.home true ⟨0, fun _ => []⟩ rfl

/-- A dash in the SSID, and a password with a space at its end. -/
def Credentials.dashed : Credentials :=
  ⟨ascii "home-5G", ascii "12345678", by decide, by decide, by decide, by decide⟩

def Credentials.spaced : Credentials :=
  ⟨ascii "home", ascii "1234567 ", by decide, by decide, by decide, by decide⟩

/-- The device asks for the network `home` with another password, and for the
right one with a password cut short. -/
theorem credentials_altered :
    let s := Network.boot.wiFiAutoConnect true
    (s.handleEvent Credentials.dashed.text true ⟨0, fun _ => []⟩).begins =
        [(ascii "home", ascii "5G-12345678")] ∧
      (s.handleEvent Credentials.spaced.text true ⟨0, fun _ => []⟩).begins =
        [(ascii "home", ascii "1234567")] ∧
      ¬ ∀ c : Credentials, (s.handleEvent c.text true ⟨0, fun _ => []⟩).begins =
        s.begins ++ [(c.ssid, c.pass)] := by
  refine ⟨by decide, by decide, fun h => ?_⟩
  exact absurd (h .dashed) (by decide)

/-- The text itself is ambiguous: no function of it gives back all credentials. -/
theorem no_decoder :
    ¬ ∃ read : Bytes → Bytes × Bytes, ∀ c : Credentials, read c.text = (c.ssid, c.pass) := by
  rintro ⟨read, hread⟩
  have hshort := hread
    ⟨ascii "a", ascii "bbbbbbbb-cccccccc", by decide, by decide, by decide, by decide⟩
  have hlong := hread
    ⟨ascii "a-bbbbbbbb", ascii "cccccccc", by decide, by decide, by decide, by decide⟩
  have hsame := congrArg Prod.fst (hshort.symm.trans hlong)
  exact absurd hsame (by decide)

end Network

end Handheld
