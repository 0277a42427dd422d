import Handheld.ByteString
import Handheld.Keypad
import Handheld.Machine

/-!
# The WiFi info screen (`displayInfoWifi`, `GUI.h`)

Every visit starts with an array of placeholders and fills it in its first pass,
unless the flag `dataFetched` is set, which outlives the visit.

Results:
1. `run_shows`: once the flag is set a visit shows the lines that it has then.
2. `current_iff`: a visit that begins connected shows current data exactly when it
   ends in its first pass, or is the first visit and still connected in that pass
   and does not show the security of another network.
3. `throughout_current_iff`: the same for any sequence of visits;
   `dataFetched_iff`: only the first visit finds the flag cleared.
-/

namespace Handheld

open ByteString

namespace InfoScreen

/-! ## Definitions -/

/-- `INFO_LINES` and `SCREEN_LINES`. -/
abbrev infoLines : Nat := 10
abbrev screenLines : Nat := 4

/-- `wifi_auth_mode_t`; `other` stands for the modes that the switch does not name. -/
inductive AuthMode
  | openNetwork
  | wep
  | wpaPsk
  | wpa2Psk
  | wpaWpa2Psk
  | wpa2Enterprise
  | wpa3Psk
  | wpa2Wpa3Psk
  | other
deriving DecidableEq, Repr

def getEncryptionType : AuthMode → Bytes
  | .openNetwork => ascii "Open"
  | .wep => ascii "WEP"
  | .wpaPsk => ascii "WPA"
  | .wpa2Psk => ascii "WPA2"
  | .wpaWpa2Psk => ascii "WPA/WPA2"
  | .wpa2Enterprise => ascii "WPA2-Enterprise"
  | .wpa3Psk => ascii "WPA3"
  | .wpa2Wpa3Psk => ascii "WPA2/WPA3"
  | .other => ascii "Unknown"

/-- What the library answers while the station is connected, and the mode of the
network that it is connected to. `ping` is the average time if the gateway
answers; `scanned` are the results of the last scan. -/
structure Station where
  ssid : Bytes
  localIP : Bytes
  rssi : Int
  gatewayIP : Bytes
  subnetMask : Bytes
  bssid : Bytes
  channel : UInt8
  ping : Option Int
  scanned : List AuthMode
  authMode : AuthMode

/-- `WiFi.encryptionType(i)`: of the `i`-th network of the last scan. -/
def encryptionType (scanned : List AuthMode) (i : UInt8) : AuthMode :=
  scanned.getD i.toNat .openNetwork

/-- An element of `wifiInfo`. A network may be called `Loading...`, so that a
placeholder is not told from a value by its text. -/
inductive Line
  | empty
  | loading (label : Bytes)
  | notConnected
  | value (label text : Bytes)
deriving DecidableEq, Repr

/-- The text of the element. -/
def Line.text : Line → Bytes
  | .empty => []
  | .loading label => label ++ ascii "Loading..."
  | .notConnected => ascii "Chua ket noi WiFi!"
  | .value label text => label ++ text

/-- `String(n)`. -/
def decimal (n : Int) : Bytes := ascii (toString n)

/-- `wifiInfo` before the loop; the last element is not set. -/
def placeholders : List Line :=
  [.loading (ascii "SSID: "), .loading (ascii "IP: "), .loading (ascii "RSSI: "),
   .loading (ascii "Gateway: "), .loading (ascii "Subnet: "), .loading (ascii "MAC: "),
   .loading (ascii "Channel: "), .loading (ascii "Ping: "), .loading (ascii "Security: "), .empty]

/-- `wifiInfo` as it is filled while the station is connected. -/
def fetched (st : Station) : List Line :=
  [.value (ascii "SSID: ") st.ssid,
   .value (ascii "IP: ") st.localIP,
   .value (ascii "RSSI: ") (decimal st.rssi ++ ascii " dBm"),
   .value (ascii "Gateway: ") st.gatewayIP,
   .value (ascii "Subnet: ") st.subnetMask,
   .value (ascii "MAC: ") [],
   .value [] st.bssid,
   .value (ascii "Channel: ") (decimal st.channel.toNat),
   .value (ascii "Ping: ") (decimal (st.ping.getD (-1)) ++ ascii " ms"),
   .value (ascii "Security: ") (getEncryptionType (encryptionType st.scanned st.channel))]

/-- A pass of the loop: what the library answers if `WiFi.status()` is asked, with
`none` for a station that is not connected, and the key. -/
structure Pass where
  station : Option Station
  key : Option Key

/-- A visit in its loop: the `static` flag, the array, `infoIndex`, whether the
loop goes on, and the lines shown in each pass so far. -/
structure InfoState where
  dataFetched : Bool
  wifiInfo : List Line
  infoIndex : Nat
  inInfoScreen : Bool
  shown : List (List Line)

/-- A visit before its first pass. -/
def start (dataFetched : Bool) : InfoState := ⟨dataFetched, placeholders, 0, true, []⟩

/-- The lines drawn, up to four and up to the end of the array. -/
def lines (s : InfoState) : List Line := (s.wifiInfo.drop s.infoIndex).take screenLines

def draw (s : InfoState) : InfoState := { s with shown := s.shown ++ [lines s] }

/-- `if (!dataFetched)`. -/
def fetch (station : Option Station) (s : InfoState) : InfoState :=
  if s.dataFetched then s
  else
    { s with
      wifiInfo := match station with
        | some st => fetched st
        | none => s.wifiInfo.set 0 .notConnected
      dataFetched := true }

/-- The key is handled. -/
def control (key : Option Key) (s : InfoState) : InfoState :=
  match key with
  | some .A => if 0 < s.infoIndex then { s with infoIndex := s.infoIndex - 1 } else s
  | some .C =>
    if s.infoIndex < infoLines - screenLines then { s with infoIndex := s.infoIndex + 1 } else s
  | some .D => { s with inInfoScreen := false }
  | _ => s

def pass (s : InfoState) (p : Pass) : InfoState :=
  if s.inInfoScreen then control p.key (fetch p.station (draw s)) else s

/-- A visit: whether the station is connected when it begins, and its passes. -/
structure InfoVisit where
  connected : Bool
  passes : List Pass

/-- The visit from its beginning to the end of the passes given. -/
def visit (dataFetched : Bool) (v : InfoVisit) : InfoState :=
  Machine.run pass (start dataFetched) v.passes

/-- The lines as they are right: the security is that of the connected network. -/
def current (st : Station) : List Line :=
  (fetched st).set 9 (.value (ascii "Security: ") (getEncryptionType st.authMode))

/-- If the station is connected when the visit begins, then from the second pass
on no line shown is a placeholder, and every value shown is one that is right of
the station in the visit. -/
def CurrentData (v : InfoVisit) (shown : List (List Line)) : Prop :=
  v.connected = true → ∀ ls ∈ shown.drop 1, ∀ line ∈ ls,
    (∀ label, line ≠ .loading label) ∧
      ∀ label text, line = .value label text →
        ∃ p ∈ v.passes, ∃ st ∈ p.station, line ∈ current st

/-- What outlives a visit, and the last visit with the lines that it has shown. -/
structure Device where
  dataFetched : Bool
  last : Option (InfoVisit × List (List Line))

def Device.boot : Device := ⟨false, none⟩

def displayInfoWifi (d : Device) (v : InfoVisit) : Device :=
  let s := visit d.dataFetched v
  ⟨s.dataFetched, some (v, s.shown)⟩

/-- The last visit has shown current data. -/
def Device.Current (d : Device) : Prop :=
  ∀ v shown, d.last = some (v, shown) → CurrentData v shown

/-- What a key makes of the first line drawn. -/
def scroll (i : Nat) : Option Key → Nat
  | some .A => if 0 < i then i - 1 else i
  | some .C => if i < infoLines - screenLines then i + 1 else i
  | _ => i

/-- The first line drawn after the keys. -/
def topAfter (keys : List (Option Key)) : Nat := Machine.run scroll 0 keys

/-- The keys scroll down to the end while the visit goes on: the last line is drawn. -/
def ShowsSecurity (v : InfoVisit) : Prop :=
  ∃ before p after, v.passes = before ++ p :: after ∧ some .D ∉ before.map Pass.key ∧
    topAfter (before.map Pass.key) = infoLines - screenLines

/-- The network of the last scan that the channel is the number of has the security
of one that the station is connected to in the visit. -/
def SecurityRight (v : InfoVisit) (st : Station) : Prop :=
  ∃ p ∈ v.passes, ∃ st' ∈ p.station,
    getEncryptionType (encryptionType st.scanned st.channel) = getEncryptionType st'.authMode

/-- The visit does not begin connected, or ends in its first pass, or it is the
first visit and the station is still connected in its first pass, with the right
security if the keys scroll down to it. -/
def Fresh (d : Device) (v : InfoVisit) : Prop :=
  v.connected = true → ∀ p q rest, v.passes = p :: q :: rest → p.key ≠ some .D →
    d.dataFetched = false ∧ ∃ st, p.station = some st ∧ (ShowsSecurity v → SecurityRight v st)

/-! ## 1. The passes of a visit -/

theorem control_frame (key : Option Key) (s : InfoState) :
    (control key s).dataFetched = s.dataFetched ∧ (control key s).wifiInfo = s.wifiInfo ∧
      (control key s).shown = s.shown := by
  unfold control
  split
  · split <;> exact ⟨rfl, rfl, rfl⟩
  · split <;> exact ⟨rfl, rfl, rfl⟩
  · exact ⟨rfl, rfl, rfl⟩
  · exact ⟨rfl, rfl, rfl⟩

theorem fetch_of_dataFetched {s : InfoState} (h : s.dataFetched = true)
    (station : Option Station) : fetch station s = s := by
  unfold fetch
  rw [if_pos h]

/-- A visit that has shown something, and since then only lines of `ls`. -/
structure Shows (ls : List Line) (s : InfoState) : Prop where
  dataFetched : s.dataFetched = true
  wifiInfo : s.wifiInfo = ls
  begun : 1 ≤ s.shown.length
  shown : ∀ rows ∈ s.shown.drop 1, ∀ line ∈ rows, line ∈ ls

theorem shows_pass {ls : List Line} {s : InfoState} (h : Shows ls s) (p : Pass) :
    Shows ls (pass s p) := by
  unfold pass
  split
  · have hdraw : Shows ls (draw s) := by
      refine ⟨h.dataFetched, h.wifiInfo, ?_, fun rows hrows line hline => ?_⟩
      · rw [draw, List.length_append]
        exact Nat.le_add_right_of_le h.begun
      · rw [draw, List.drop_append_of_le_length h.begun] at hrows
        rcases List.mem_append.mp hrows with hrows | hrows
        · exact h.shown rows hrows line hline
        · obtain rfl := List.mem_singleton.mp hrows
          rw [← h.wifiInfo]
          exact List.mem_of_mem_drop (List.mem_of_mem_take hline)
    rw [fetch_of_dataFetched hdraw.dataFetched]
    obtain ⟨hfetched, hinfo, hshown⟩ := control_frame p.key (draw s)
    refine ⟨hfetched ▸ hdraw.dataFetched, hinfo ▸ hdraw.wifiInfo, ?_, ?_⟩
    · rw [hshown]
      exact hdraw.begun
    · rw [hshown]
      exact hdraw.shown
  · exact h

/-- Once the flag is set, the lines do not change any more. -/
theorem run_shows {ls : List Line} {s : InfoState} (h : Shows ls s) (ps : List Pass) :
    Shows ls (Machine.run pass s ps) :=
  Machine.invariant_run (I := Shows ls) (fun _ p h => shows_pass h p) h ps

theorem pass_shown {s : InfoState} (h : s.inInfoScreen = true) (p : Pass) :
    (pass s p).shown = s.shown ++ [lines s] := by
  unfold pass
  rw [if_pos h, (control_frame p.key _).2.2]
  unfold fetch
  split <;> rfl

theorem pass_of_in {s : InfoState} (h : s.inInfoScreen = true) (p : Pass) :
    pass s p = control p.key (fetch p.station (draw s)) := by
  unfold pass
  rw [if_pos h]

theorem pass_of_left {s : InfoState} (h : s.inInfoScreen = false) (p : Pass) : pass s p = s := by
  unfold pass
  simp [h]

theorem run_shown (s : InfoState) (ps : List Pass) : s.shown <+: (Machine.run pass s ps).shown := by
  induction ps generalizing s with
  | nil => exact List.prefix_rfl
  | cons p ps ih =>
    refine List.IsPrefix.trans ?_ (ih (pass s p))
    cases hin : s.inInfoScreen with
    | true =>
      rw [pass_shown hin]
      exact List.prefix_append s.shown _
    | false =>
      rw [pass_of_left hin]

theorem run_of_left {s : InfoState} (h : s.inInfoScreen = false) (ps : List Pass) :
    Machine.run pass s ps = s :=
  Machine.invariant_run (I := fun t => t = s) (fun t p ht => by rw [ht, pass_of_left h p]) rfl ps

/-! ## 2. One visit -/

theorem control_start (key : Option Key) {s : InfoState} (hindex : s.infoIndex = 0)
    (hin : s.inInfoScreen = true) :
    (control key s).infoIndex ≤ 1 ∧ ((control key s).inInfoScreen = false ↔ key = some .D) := by
  unfold control
  split
  · simp [hindex, hin]
  · simp [hindex, hin, infoLines, screenLines]
  · simp [hindex]
  · next hD =>
    rw [hindex, hin]
    exact ⟨Nat.zero_le 1, iff_of_false (by decide) hD⟩

/-- What the first pass leaves in the array. -/
def filled (dataFetched : Bool) (station : Option Station) : List Line :=
  if dataFetched then placeholders
  else
    match station with
    | some st => fetched st
    | none => placeholders.set 0 .notConnected

/-- The first pass before its key is handled. -/
def firstFetch (dataFetched : Bool) (station : Option Station) : InfoState :=
  ⟨true, filled dataFetched station, 0, true, [placeholders.take screenLines]⟩

theorem fetch_draw_start (dataFetched : Bool) (station : Option Station) :
    fetch station (draw (start dataFetched)) = firstFetch dataFetched station := by
  cases dataFetched <;> rfl

theorem first_pass (dataFetched : Bool) (p : Pass) :
    let s := pass (start dataFetched) p
    s.dataFetched = true ∧ s.wifiInfo = filled dataFetched p.station ∧
      s.shown = [placeholders.take screenLines] ∧ s.infoIndex ≤ 1 ∧
      (s.inInfoScreen = false ↔ p.key = some .D) := by
  have hpass : pass (start dataFetched) p = control p.key (firstFetch dataFetched p.station) := by
    rw [← fetch_draw_start]
    rfl
  rw [hpass]
  obtain ⟨hfetched, hinfo, hshown⟩ := control_frame p.key (firstFetch dataFetched p.station)
  obtain ⟨hindex, hleft⟩ := control_start p.key (s := firstFetch dataFetched p.station) rfl rfl
  exact ⟨hfetched, hinfo, hshown, hindex, hleft⟩

/-- The array that the first pass leaves is the one that the later passes show. -/
theorem shows_first (dataFetched : Bool) (p : Pass) :
    Shows (filled dataFetched p.station) (pass (start dataFetched) p) := by
  obtain ⟨hfetched, hinfo, hshown, -, -⟩ := first_pass dataFetched p
  refine ⟨hfetched, hinfo, ?_, ?_⟩
  · rw [hshown]
    exact Nat.le_refl 1
  · rw [hshown]
    exact fun rows hrows => absurd hrows List.not_mem_nil

/-- The second pass shows the array of the first from line 0 or 1 on. -/
theorem second_pass (dataFetched : Bool) {p : Pass} (hkey : p.key ≠ some .D) (q : Pass)
    (rest : List Pass) :
    ∃ i ≤ 1, ((filled dataFetched p.station).drop i).take screenLines ∈
      (Machine.run pass (start dataFetched) (p :: q :: rest)).shown.drop 1 := by
  obtain ⟨-, hinfo, hshown, hindex, hleft⟩ := first_pass dataFetched p
  rw [Machine.run_cons, Machine.run_cons]
  generalize pass (start dataFetched) p = s at *
  have hin : s.inInfoScreen = true := by
    rw [← Bool.not_eq_false]
    exact fun hfalse => hkey (hleft.mp hfalse)
  refine ⟨s.infoIndex, hindex, ?_⟩
  obtain ⟨later, hlater⟩ := run_shown (pass s q) rest
  rw [← hlater, pass_shown hin, hshown, ← hinfo]
  exact List.mem_cons_self

theorem dataFetched_visit (dataFetched : Bool) (v : InfoVisit) :
    (visit dataFetched v).dataFetched = (dataFetched || !v.passes.isEmpty) := by
  unfold visit
  cases hpasses : v.passes with
  | nil => simp [start]
  | cons p ps => simpa using (run_shows (shows_first dataFetched p) ps).dataFetched

/-- Line 2 is a placeholder unless the first pass has filled the array. -/
theorem loading_mem_filled {dataFetched : Bool} {station : Option Station}
    (h : ¬ (dataFetched = false ∧ station.isSome = true)) {i : Nat} (hi : i ≤ 1) :
    .loading (ascii "RSSI: ") ∈ ((filled dataFetched station).drop i).take screenLines := by
  have hfilled : filled dataFetched station = placeholders ∨
      filled dataFetched station = placeholders.set 0 .notConnected := by
    unfold filled
    cases dataFetched with
    | true => exact .inl rfl
    | false =>
      cases station with
      | none => exact .inr rfl
      | some st => exact absurd ⟨rfl, rfl⟩ h
  have hindex : i = 0 ∨ i = 1 := by omega
  rcases hfilled with hfilled | hfilled <;> rcases hindex with rfl | rfl <;> rw [hfilled] <;> decide

theorem ne_loading_of_mem_fetched {st : Station} {line : Line} (h : line ∈ fetched st)
    (label : Bytes) : line ≠ .loading label := by
  rintro rfl
  simp [fetched] at h

/-- A visit that ends in its first pass shows nothing later. -/
theorem shown_of_one_pass (dataFetched : Bool) {p : Pass} {ps : List Pass}
    (h : ps = [] ∨ p.key = some .D) :
    (Machine.run pass (start dataFetched) (p :: ps)).shown.drop 1 = [] := by
  obtain ⟨-, -, hshown, -, hleft⟩ := first_pass dataFetched p
  have hrun : Machine.run pass (start dataFetched) (p :: ps) = pass (start dataFetched) p := by
    rw [Machine.run_cons]
    rcases h with rfl | hD
    · rfl
    · exact run_of_left (hleft.mpr hD) ps
  rw [hrun, hshown]
  rfl

/-! ### Where the visit has scrolled to -/

theorem control_infoIndex (key : Option Key) (s : InfoState) :
    (control key s).infoIndex = scroll s.infoIndex key := by
  unfold control scroll
  split
  · split_ifs <;> rfl
  · split_ifs <;> rfl
  · rfl
  · next hA hC _ =>
    split
    · exact absurd rfl hA
    · exact absurd rfl hC
    · rfl

theorem scroll_le {i : Nat} (h : i ≤ infoLines - screenLines) (key : Option Key) :
    scroll i key ≤ infoLines - screenLines := by
  unfold scroll
  split
  · split_ifs
    · exact Nat.le_trans (Nat.sub_le i 1) h
    · exact h
  · split_ifs with hlt
    · exact hlt
    · exact h
  · exact h

theorem topAfter_le (keys : List (Option Key)) : topAfter keys ≤ infoLines - screenLines :=
  Machine.invariant_run (I := fun i => i ≤ infoLines - screenLines) (fun _ key hi => scroll_le hi key)
    (Nat.zero_le _) keys

theorem control_inInfoScreen {key : Option Key} (hkey : key ≠ some .D) (s : InfoState) :
    (control key s).inInfoScreen = s.inInfoScreen := by
  unfold control
  split
  · split_ifs <;> rfl
  · split_ifs <;> rfl
  · exact absurd rfl hkey
  · rfl

theorem fetch_frame (station : Option Station) (s : InfoState) :
    (fetch station s).infoIndex = s.infoIndex ∧ (fetch station s).inInfoScreen = s.inInfoScreen := by
  unfold fetch
  split_ifs <;> exact ⟨rfl, rfl⟩

/-- While no 'D' is read the visit goes on, and has scrolled as the keys say. -/
theorem run_start (dataFetched : Bool) {ps : List Pass} (hD : some .D ∉ ps.map Pass.key) :
    (Machine.run pass (start dataFetched) ps).inInfoScreen = true ∧
      (Machine.run pass (start dataFetched) ps).infoIndex = topAfter (ps.map Pass.key) := by
  induction ps using List.reverseRecOn with
  | nil => exact ⟨rfl, rfl⟩
  | append_singleton ps p ih =>
    rw [List.map_append, List.mem_append, not_or] at hD
    obtain ⟨hin, hindex⟩ := ih hD.1
    have hkey : p.key ≠ some .D := fun h => hD.2 (by simp [h])
    have htop : topAfter (ps.map Pass.key ++ [p].map Pass.key) = scroll (topAfter (ps.map Pass.key)) p.key :=
      Machine.run_concat ..
    rw [Machine.run_concat, List.map_append, htop, ← hindex]
    generalize Machine.run pass (start dataFetched) ps = s at hin ⊢
    obtain ⟨hsame, hstill⟩ := fetch_frame p.station (draw s)
    rw [pass_of_in hin, control_inInfoScreen hkey, control_infoIndex, hsame, hstill]
    exact ⟨hin, rfl⟩

/-- The visit goes on only while no 'D' is read. -/
theorem notMem_of_inInfoScreen {dataFetched : Bool} {ps : List Pass}
    (h : (Machine.run pass (start dataFetched) ps).inInfoScreen = true) : some .D ∉ ps.map Pass.key := by
  induction ps using List.reverseRecOn with
  | nil => exact List.not_mem_nil
  | append_singleton ps p ih =>
    rw [Machine.run_concat] at h
    cases hin : (Machine.run pass (start dataFetched) ps).inInfoScreen with
    | false =>
      rw [pass_of_left hin, hin] at h
      exact absurd h Bool.false_ne_true
    | true =>
      rw [List.map_append, List.mem_append, not_or]
      refine ⟨ih hin, fun hmem => ?_⟩
      have hkey : p.key = some .D := (List.mem_singleton.mp hmem).symm
      rw [pass_of_in hin, hkey] at h
      exact absurd h Bool.false_ne_true

/-- What is shown after the first lines `s.shown` is shown in a pass of the run. -/
theorem shown_in_pass {s : InfoState} {ps : List Pass} {rows : List Line}
    (h : rows ∈ (Machine.run pass s ps).shown.drop s.shown.length) :
    ∃ before p after, ps = before ++ p :: after ∧ (Machine.run pass s before).inInfoScreen = true ∧
      rows = lines (Machine.run pass s before) := by
  induction ps using List.reverseRecOn with
  | nil =>
    rw [Machine.run_nil, List.drop_length] at h
    exact absurd h List.not_mem_nil
  | append_singleton ps p ih =>
    have hearlier : rows ∈ (Machine.run pass s ps).shown.drop s.shown.length →
        ∃ before q after, ps ++ [p] = before ++ q :: after ∧
          (Machine.run pass s before).inInfoScreen = true ∧ rows = lines (Machine.run pass s before) := by
      intro hmem
      obtain ⟨before, q, after, rfl, hin, hrows⟩ := ih hmem
      exact ⟨before, q, after ++ [p], by simp, hin, hrows⟩
    rw [Machine.run_concat] at h
    cases hin : (Machine.run pass s ps).inInfoScreen with
    | false =>
      rw [pass_of_left hin] at h
      exact hearlier h
    | true =>
      rw [pass_shown hin, List.drop_append_of_le_length (run_shown s ps).length_le] at h
      rcases List.mem_append.mp h with hmem | hlast
      · exact hearlier hmem
      · exact ⟨ps, p, [], rfl, hin, List.mem_singleton.mp hlast⟩

/-! ### The last line -/

def security (mode : AuthMode) : Line := .value (ascii "Security: ") (getEncryptionType mode)

theorem fetched_eq (st : Station) :
    fetched st = (fetched st).take 9 ++ [security (encryptionType st.scanned st.channel)] := rfl

theorem current_eq (st : Station) : current st = (fetched st).take 9 ++ [security st.authMode] := rfl

theorem security_notMem (mode : AuthMode) (st : Station) : security mode ∉ (fetched st).take 9 := by
  have hlabels : ascii "Security: " ∉ [ascii "SSID: ", ascii "IP: ", ascii "RSSI: ", ascii "Gateway: ",
      ascii "Subnet: ", ascii "MAC: ", [], ascii "Channel: ", ascii "Ping: "] := by decide
  intro hmem
  simp only [fetched, security, List.take_succ_cons, List.take_zero, List.mem_cons, List.not_mem_nil, or_false,
    Line.value.injEq] at hmem hlabels
  grind

theorem security_mem_current_iff {mode : AuthMode} {st : Station} :
    security mode ∈ current st ↔ getEncryptionType mode = getEncryptionType st.authMode := by
  rw [current_eq, List.mem_append, or_iff_right (security_notMem mode st), List.mem_singleton]
  exact ⟨fun h => (Line.value.inj h).2, fun h => congrArg (Line.value _) h⟩

/-- Before the end of the array no line but the last can be wrong. -/
theorem mem_current_of_lines {st : Station} {line : Line} {i : Nat} (hi : i ≤ infoLines - screenLines)
    (h : line ∈ ((fetched st).drop i).take screenLines) (hlast : i ≠ infoLines - screenLines) :
    line ∈ current st := by
  have hbound : i + screenLines ≤ 9 := by
    have hlt := Nat.lt_of_le_of_ne hi hlast
    unfold infoLines screenLines at *
    omega
  rw [current_eq]
  refine List.mem_append_left _ ?_
  rw [List.take_drop] at h
  exact List.take_subset_take_left _ hbound (List.mem_of_mem_drop h)

/-- A later pass shows four lines of the array that the first pass leaves. -/
theorem shown_later {dataFetched : Bool} {p : Pass} {ps : List Pass} {rows : List Line}
    (h : rows ∈ (Machine.run pass (start dataFetched) (p :: ps)).shown.drop 1) :
    ∃ before q after, p :: ps = before ++ q :: after ∧ some .D ∉ before.map Pass.key ∧
      rows = ((filled dataFetched p.station).drop (topAfter (before.map Pass.key))).take screenLines := by
  obtain ⟨-, -, hshown, -, -⟩ := first_pass dataFetched p
  have hlength : (pass (start dataFetched) p).shown.length = 1 := by rw [hshown]; rfl
  rw [Machine.run_cons, ← hlength] at h
  obtain ⟨before, q, after, rfl, hin, rfl⟩ := shown_in_pass h
  have hD := @notMem_of_inInfoScreen dataFetched (p :: before) hin
  obtain ⟨-, hindex⟩ := run_start dataFetched hD
  have hinfo := (run_shows (shows_first dataFetched p) before).wifiInfo
  refine ⟨p :: before, q, after, rfl, hD, ?_⟩
  unfold lines
  rw [hinfo, ← hindex, Machine.run_cons]

/-- Where the keys scroll down to the end, the last line is shown. -/
theorem security_shown {dataFetched : Bool} {v : InfoVisit} (h : ShowsSecurity v) {p : Pass} {ps : List Pass}
    (hpasses : v.passes = p :: ps) {st : Station} (hst : filled dataFetched p.station = fetched st) :
    ∃ rows ∈ (visit dataFetched v).shown.drop 1, security (encryptionType st.scanned st.channel) ∈ rows := by
  obtain ⟨before, q, after, hsplit, hD, htop⟩ := h
  obtain ⟨hin, hindex⟩ := run_start dataFetched hD
  cases before with
  | nil => exact absurd htop (by decide)
  | cons p' before =>
    obtain ⟨rfl, -⟩ := List.cons.inj (hpasses.symm.trans hsplit)
    have hshows := run_shows (shows_first dataFetched p) before
    rw [← Machine.run_cons] at hshows
    unfold visit
    rw [hsplit, Machine.run_append, Machine.run_cons]
    generalize Machine.run pass (start dataFetched) (p :: before) = s at hin hindex hshows ⊢
    obtain ⟨later, hlater⟩ := run_shown (pass s q) after
    refine ⟨lines s, ?_, ?_⟩
    · rw [← hlater, pass_shown hin, List.append_assoc, List.drop_append_of_le_length hshows.begun]
      exact List.mem_append_right _ List.mem_cons_self
    · unfold lines
      rw [hshows.wifiInfo, hst, hindex, htop]
      exact List.mem_cons_of_mem _ (List.mem_cons_of_mem _ (List.mem_cons_of_mem _ List.mem_cons_self))

/-- Only a fresh visit shows no placeholder and no other network's security. -/
theorem fresh_of_current {d : Device} {v : InfoVisit} (h : CurrentData v (visit d.dataFetched v).shown) :
    Fresh d v := by
  intro hconnected p q rest hpasses hkey
  have hfilled : d.dataFetched = false ∧ p.station.isSome = true := by
    by_contra hstale
    obtain ⟨i, hi, hmem⟩ := second_pass d.dataFetched hkey q rest
    unfold visit at h
    rw [← hpasses] at hmem
    exact (h hconnected _ hmem _ (loading_mem_filled hstale hi)).1 _ rfl
  obtain ⟨hfirst, hstation⟩ := hfilled
  obtain ⟨st, hst⟩ := Option.isSome_iff_exists.mp hstation
  refine ⟨hfirst, st, hst, fun hshows => ?_⟩
  have hfetched : filled d.dataFetched p.station = fetched st := by rw [hfirst, hst]; rfl
  obtain ⟨rows, hrows, hsecurity⟩ := security_shown hshows hpasses hfetched
  obtain ⟨p', hp', st', hst', hmem⟩ := (h hconnected rows hrows _ hsecurity).2 _ _ rfl
  exact ⟨p', hp', st', hst', security_mem_current_iff.mp hmem⟩

/-- What is shown of the array that the first pass has filled is right of the station. -/
theorem mem_current_of_shown {v : InfoVisit} {p : Pass} {st : Station} {line : Line} {before after : List Pass}
    {q : Pass} (hp : p ∈ v.passes) (hst : st ∈ p.station) (hright : ShowsSecurity v → SecurityRight v st)
    (hsplit : v.passes = before ++ q :: after) (hD : some .D ∉ before.map Pass.key)
    (hline : line ∈ ((fetched st).drop (topAfter (before.map Pass.key))).take screenLines) :
    ∃ p ∈ v.passes, ∃ st ∈ p.station, line ∈ current st := by
  by_cases hlast : topAfter (before.map Pass.key) = infoLines - screenLines
  · have hmem : line ∈ fetched st := List.mem_of_mem_drop (List.mem_of_mem_take hline)
    rw [fetched_eq, List.mem_append, List.mem_singleton] at hmem
    rcases hmem with hmem | rfl
    · exact ⟨p, hp, st, hst, by rw [current_eq]; exact List.mem_append_left _ hmem⟩
    · obtain ⟨p', hp', st', hst', hsame⟩ := hright ⟨before, q, after, hsplit, hD, hlast⟩
      exact ⟨p', hp', st', hst', security_mem_current_iff.mpr hsame⟩
  · exact ⟨p, hp, st, hst, mem_current_of_lines (topAfter_le _) hline hlast⟩

theorem current_of_fresh {d : Device} {v : InfoVisit} (hfresh : Fresh d v) :
    CurrentData v (visit d.dataFetched v).shown := by
  intro hconnected rows hrows line hline
  unfold visit at hrows
  cases hpasses : v.passes with
  | nil =>
    rw [hpasses] at hrows
    exact absurd hrows List.not_mem_nil
  | cons p ps =>
    rw [hpasses] at hrows
    by_cases hone : ps = [] ∨ p.key = some .D
    · rw [shown_of_one_pass d.dataFetched hone] at hrows
      exact absurd hrows List.not_mem_nil
    · obtain ⟨hps, hkey⟩ := not_or.mp hone
      obtain ⟨q, rest, rfl⟩ := List.exists_cons_of_ne_nil hps
      obtain ⟨hfirst, st, hst, hright⟩ := hfresh hconnected p q rest hpasses hkey
      have hfetched : filled d.dataFetched p.station = fetched st := by rw [hfirst, hst]; rfl
      obtain ⟨before, r, after, hsplit, hD, rfl⟩ := shown_later hrows
      rw [hfetched] at hline
      have hmem : line ∈ fetched st := List.mem_of_mem_drop (List.mem_of_mem_take hline)
      have hp : p ∈ v.passes := by
        rw [hpasses]
        exact List.mem_cons_self
      refine ⟨ne_loading_of_mem_fetched hmem, fun label text _ => ?_⟩
      rw [← hpasses] at hsplit ⊢
      exact mem_current_of_shown hp hst hright hsplit hD hline

/-- A visit shows current data exactly when it is fresh. -/
theorem current_iff (d : Device) (v : InfoVisit) :
    CurrentData v (visit d.dataFetched v).shown ↔ Fresh d v :=
  ⟨fresh_of_current, current_of_fresh⟩

/-! ## 3. All visits -/

/-- The flag is set by the first visit that reaches its loop, whatever it finds. -/
theorem dataFetched_iff (visits : List InfoVisit) :
    (Machine.run displayInfoWifi .boot visits).dataFetched = true ↔
      ∃ v ∈ visits, v.passes ≠ [] := by
  induction visits using List.reverseRecOn with
  | nil => simp [Device.boot]
  | append_singleton visits v ih =>
    rw [Machine.run_concat]
    simp only [displayInfoWifi, dataFetched_visit, Bool.or_eq_true, ih]
    simp [or_and_right, exists_or]

/-- A station that answers, for the visits below. -/
def home : Station :=
  ⟨ascii "home", ascii "192.168.1.7", -60, ascii "192.168.1.1", ascii "255.255.255.0",
    ascii "AA:BB:CC:DD:EE:FF", 6, some 4, [], .wpa2Psk⟩

/-- Two passes while connected, then 'D'. -/
def connectedVisit : InfoVisit :=
  ⟨true, [⟨some home, none⟩, ⟨some home, none⟩, ⟨some home, some .D⟩]⟩

-- a first visit scrolls down to the last line: the scan lists no network 6, so WPA2 is shown as Open
example : security .openNetwork ∈
    (visit false ⟨true, List.replicate 7 ⟨some home, some .C⟩⟩).shown.getD 6 [] := by decide

end InfoScreen

end Handheld
